import Llmctl.Policy.LogSound
import Mathlib.Data.Fintype.Basic

/-!
# Appends to the policy log

An append writes its entry after the text of the file, whether this ends with a line or
not, and it writes the text that it has read, whether this is still the file's or not.
-/

namespace Llmctl.Policy

open Async Text Value

/-! ## The new entry -/

section
variable {sha256Hex : ByteArray → String} {order : FieldOrder} {numbers : Numbers}
  {current : List Value} {loggedAt : String} {artifact : ByteArray} {signatureSha256 : Option String}

/-- What the entry is to the log that it was built from. -/
structure Continues (sha256Hex : ByteArray → String) (order : FieldOrder) (current : List Value) (artifact : ByteArray)
    (entry : Value) : Prop where
  hash : Sealed sha256Hex current.length entry
  link : previousHash entry = (current.getLast?.bind fun last => last.get "entry_hash").bind asStr
  artifact : entry.get "artifact_sha256" = some (.string (sha256Hex artifact))
  object : ∃ fields, entry = .object fields
  integral : entry.Integral
  read : ∀ numbers, Value.read numbers order entry.render = some entry

theorem optional_integral (s : Option String) : (optional s).Integral := by
  cases s <;> trivial

theorem optional_asStr (s : Option String) : (some (optional s)).bind asStr = s := by
  cases s <;> rfl

theorem usize_lt (n : Nat) : usize n < 2 ^ 64 := Nat.mod_lt _ (by decide)

theorem integralFields_iff {fields : List (String × Value)} : IntegralFields fields ↔ ∀ field ∈ fields, field.2.Integral := by
  induction fields with
  | nil => simp [IntegralFields]
  | cons field fields ih => simp [IntegralFields, ih]

theorem entryFields_nodup : ((entryFields sha256Hex current loggedAt artifact signatureSha256).map (·.1)).Nodup := by
  simp [entryFields]

theorem entryFields_integral : ∀ field ∈ entryFields sha256Hex current loggedAt artifact signatureSha256, field.2.Integral := by
  have hnat : ∀ n : Nat, (number n.repr).Integral := fun n => ⟨n, rfl⟩
  have hone : (number "1").Integral := ⟨1, by decide⟩
  have hindex := hnat (usize current.length)
  have hoptional := optional_integral
  simp only [entryFields, List.forall_mem_cons]
  exact ⟨hone, trivial, hindex, trivial, trivial, hoptional _, hoptional _, nofun⟩

theorem entryFields_keep (numbers : Numbers) :
    ∀ field ∈ entryFields sha256Hex current loggedAt artifact signatureSha256, keep numbers order field.2 = some field.2 := by
  have hnat : ∀ n < 2 ^ 64, keep numbers order (number n.repr) = some (number n.repr) := by
    intro n hn
    rw [keep, numbers.nat n hn]
    rfl
  have hone : keep numbers order (number "1") = some (number "1") := hnat 1 (by decide)
  have hoptional : ∀ s, keep numbers order (optional s) = some (optional s) := by
    intro s
    cases s <;> rfl
  simp only [entryFields, List.forall_mem_cons]
  exact ⟨hone, rfl, hnat _ (usize_lt _), rfl, rfl, hoptional _, hoptional _, List.forall_mem_nil _⟩

theorem newEntry_continues :
    Continues sha256Hex order current artifact (newEntry sha256Hex order current loggedAt artifact signatureSha256) := by
  have hnew : "entry_hash" ∉ (entryFields sha256Hex current loggedAt artifact signatureSha256).map (·.1) := by
    simp [entryFields]
  obtain ⟨fields, hset, hnodup, hperm⟩ := setField_json order entryFields_nodup hnew
    (.string (policyLogEntryHash sha256Hex (json order (entryFields sha256Hex current loggedAt artifact signatureSha256))))
  have hentry : newEntry sha256Hex order current loggedAt artifact signatureSha256 = json order fields := hset
  have hget : ∀ {key : String} {v : Value}, (key, v) ∈ entryFields sha256Hex current loggedAt artifact signatureSha256 →
      (json order fields).get key = some v :=
    fun hmem => get_json hnodup (hperm.mem_iff.mpr (List.mem_cons_of_mem _ hmem))
  have hindex : (json order fields).get "index" = some (.number (usize current.length).repr) :=
    hget (by simp [entryFields])
  have hlink : (json order fields).get "previous_hash" =
      some (optional ((current.getLast?.bind fun entry => entry.get "entry_hash").bind asStr)) :=
    hget (by simp [entryFields])
  have hunset : "entry_hash" ∉ (collectFields order (entryFields sha256Hex current loggedAt artifact signatureSha256)).map
      (·.1) := by
    rwa [((perm_collectFields order entryFields_nodup).map _).mem_iff]
  rw [hentry]
  have hall : ∀ (p : Value → Prop), (∀ field ∈ entryFields sha256Hex current loggedAt artifact signatureSha256, p field.2) →
      (∀ s, p (.string s)) → ∀ field ∈ fields, p field.2 := by
    intro p hp hs field hmem
    rcases List.mem_cons.mp (hperm.mem_iff.mp hmem) with rfl | hmem
    · exact hs _
    · exact hp field hmem
  refine ⟨⟨?_, ?_⟩, ?_, hget (by simp [entryFields]), ⟨_, rfl⟩, ?_, fun numbers => ?_⟩
  · rw [get_json hnodup (hperm.mem_iff.mpr List.mem_cons_self), policyLogEntryHash, policyLogEntryHash,
      canonicalJson_removeField hnodup hperm, json, removeField_of_not_mem hunset]
    rfl
  · rw [hindex, Option.bind_some, asU64_repr (usize_lt _)]
  · rw [previousHash, hlink, optional_asStr]
  · rw [json, Integral, integralFields_iff]
    intro field hmem
    exact hall _ entryFields_integral (fun _ => trivial) field ((perm_collectFields order hnodup).mem_iff.mp hmem)
  · refine read_json hnodup (hall Numeric (fun field hmem => (entryFields_integral field hmem).numeric) fun _ => trivial) ?_
    exact hall (fun v => keep numbers order v = some v) (entryFields_keep numbers) fun _ => rfl

variable {entries : List Value} {entry : Value}

/-- A log that is accepted is accepted with the entry, which gives its head. -/
theorem accepted_append (haccepted : accepted (verifyPolicyLogValues sha256Hex order entries) = true)
    (h : Continues sha256Hex order entries artifact entry) :
    accepted (verifyPolicyLogValues sha256Hex order (entries ++ [entry])) = true ∧
      (verifyPolicyLogValues sha256Hex order (entries ++ [entry])).get "head" = entry.get "entry_hash" := by
  obtain ⟨hlinked, hsealed⟩ := accepted_iff.mp haccepted
  have hhead : HashChain.head (policyLogEntryHash sha256Hex) entries = previousHash entry := by
    rw [h.link, HashChain.head]
    cases hlast : entries.getLast? with
    | none => rfl
    | some last =>
      obtain ⟨i, hi⟩ := sealed_of_mem hsealed (List.mem_of_getLast? hlast)
      rw [Option.bind_some, hi.hash]
      rfl
  have haccepted' : accepted (verifyPolicyLogValues sha256Hex order (entries ++ [entry])) = true := by
    refine accepted_iff.mpr ⟨(HashChain.linked_concat _ _).mpr ⟨hlinked, ?_⟩, sealedFrom_concat hsealed h.hash⟩
    rw [hhead, Option.or_none]
  refine ⟨haccepted', ?_⟩
  unfold verifyPolicyLogValues at haccepted' ⊢
  rw [head_of_accepted haccepted', HashChain.head_concat, get_of_asStr h.hash.hash]
  rfl

/-! ## Reading an entry back -/

/-- Nothing but spaces follows the last newline of the log. -/
def EndsInLine (log : Option String) : Prop := ∀ c ∈ lastLine (log.getD "").toList, isJsonSpace c = true

theorem recordsOf_getD (log : Option String) : recordsOf numbers order log = parseJsonl numbers order (log.getD "") := by
  cases log <;> rfl

def blank (line : List Char) : Bool := (trim (String.ofList line)).isEmpty

def records (numbers : Numbers) (order : FieldOrder) (lines : List (List Char)) : Result (List Value) :=
  (lines.filter fun line => !blank line).mapM (parseRecord numbers order)

theorem records_append (before after : List (List Char)) : records numbers order (before ++ after) = (do
    let vs ← records numbers order before
    let ws ← records numbers order after
    pure (vs ++ ws)) := by
  unfold records
  rw [List.filter_append, List.mapM_append]

theorem records_line (line : List Char) : records numbers order [line] =
    if blank line then .ok [] else (parseRecord numbers order line).map fun v => [v] := by
  unfold records
  by_cases h : blank line = true
  · rw [List.filter_cons_of_neg (by simp [h]), if_pos h]
    rfl
  · rw [List.filter_cons_of_pos (by simp [h]), if_neg h]
    rw [List.filter_nil, List.mapM_cons, List.mapM_nil]
    cases parseRecord numbers order line <;> rfl

theorem blank_iff {line : List Char} : blank line = true ↔ ∀ c ∈ line, isWhitespace c = true := by
  unfold blank trim
  rw [String.toList_ofList, String.isEmpty_iff, String.ofList_eq_empty_iff, List.reverse_eq_nil_iff,
    List.dropWhile_eq_nil_iff]
  constructor
  · intro h
    rw [← List.dropWhile_eq_nil_iff]
    by_contra hne
    refine List.dropWhile_get_zero_not isWhitespace line (List.length_pos_iff.mpr hne) ?_
    exact h _ (List.mem_reverse.mpr (List.getElem_mem _))
  · intro h c hc
    exact h c ((List.dropWhile_sublist _).subset (List.mem_reverse.mp hc))

theorem whitespace_of_space {c : Char} (h : isJsonSpace c = true) : isWhitespace c = true := by
  unfold isJsonSpace at h
  simp only [Bool.or_eq_true, decide_eq_true_eq] at h
  rcases h with ((rfl | rfl) | rfl) | rfl <;> decide

/-- A space that is not JSON's begins no value. -/
theorem fromStr_whitespace {c : Char} {s t : List Char} (h : skipSpace s = c :: t) (hc : isWhitespace c = true) :
    fromStr (String.ofList s) = none := by
  have hne : ∀ d : Char, isWhitespace d = false → c ≠ d := by
    rintro d hd rfl
    rw [hd] at hc
    cases hc
  have hparse : parseValue (s.length + 1) s = none := by
    unfold parseValue
    rw [h]
    split
    · rename_i heq
      exact absurd (List.cons.inj heq).1 (hne _ (by decide))
    · rename_i heq
      exact absurd (List.cons.inj heq).1 (hne _ (by decide))
    · rename_i heq
      exact absurd (List.cons.inj heq).1 (hne _ (by decide))
    · rename_i heq
      exact absurd (List.cons.inj heq).1 (hne _ (by decide))
    · rename_i heq
      exact absurd (List.cons.inj heq).1 (hne _ (by decide))
    · rename_i heq
      exact absurd (List.cons.inj heq).1 (hne _ (by decide))
    · have hnumber : parseNumber (c :: t) = none := by
        refine Option.eq_none_iff_forall_ne_some.mpr fun r hr => ?_
        obtain ⟨d, u, hcons, hd⟩ := parseNumber_cons hr
        obtain ⟨rfl, -⟩ := List.cons.inj hcons
        rcases hd with hdigit | rfl
        · have hrange := Char.isDigit_iff_toNat.mp hdigit
          have hzero : '0'.toNat = 48 := by decide
          have hnine : '9'.toNat = 57 := by decide
          unfold isWhitespace at hc
          simp only [Bool.or_eq_true, Bool.and_eq_true, decide_eq_true_eq, beq_iff_eq] at hc
          omega
        · revert hc
          decide
      rw [hnumber]
      rfl
  unfold fromStr
  rw [String.toList_ofList, hparse]

/-- An entry after a last line that is more than spaces is no record. -/
theorem fromStr_glued {last line : List Char} {v : Value} (hlast : ¬ ∀ c ∈ last, isJsonSpace c = true)
    (hread : blank last = true ∨ fromStr (String.ofList last) = some v) (hends : Ends line) (hline : skipSpace line ≠ []) :
    fromStr (String.ofList (last ++ line)) = none := by
  rcases hread with hblank | hvalue
  · cases hskip : skipSpace last with
    | nil => exact absurd (List.dropWhile_eq_nil_iff.mp hskip) hlast
    | cons c t =>
      refine fromStr_whitespace (skipSpace_append hskip) (blank_iff.mp hblank c ?_)
      exact (List.dropWhile_sublist isJsonSpace).subset (by rw [← skipSpace, hskip]; exact List.mem_cons_self)
  · exact fromStr_trailing hvalue hends hline

/-- The text of an entry is a line of its own. -/
theorem Continues.line (h : Continues sha256Hex order entries artifact entry) :
    ∃ text, entry.render.toList = '\x7b' :: text ∧ '\n' ∉ entry.render.toList ∧
      entry.render.toList.getLast? ≠ some '\r' := by
  obtain ⟨fields, rfl⟩ := h.object
  have hprintable := render_printable _ h.integral
  refine ⟨_, render_object fields, fun hmem => ?_, fun hlast => ?_⟩
  · exact absurd (hprintable _ hmem) (by decide)
  · exact absurd (hprintable _ (List.mem_of_getLast? hlast)) (by decide)

/-- An entry is read back after the text of the log if and only if this ends with a line. -/
theorem readable_iff {log : Option String} (hlog : recordsOf numbers order log = .ok entries)
    (h : Continues sha256Hex order entries artifact entry) :
    recordsOf numbers order (some (appended log entry)) = .ok (entries ++ [entry]) ↔ EndsInLine log := by
  obtain ⟨text, htext, hnewline, hreturn⟩ := h.line
  obtain ⟨before, hold, hnew⟩ := lines_added (log.getD "").toList hnewline (by simp [htext]) hreturn
  generalize hlast : lastLine (log.getD "").toList = last at hold hnew
  have hadded : (appended log entry).toList = (log.getD "").toList ++ (entry.render.toList ++ ['\n']) := by
    simp [appended]
  have hrecords : recordsOf numbers order (some (appended log entry)) = (do
      let vs ← records numbers order before
      let ws ← records numbers order [last ++ entry.render.toList]
      pure (vs ++ ws)) := by
    rw [← records_append, ← hnew, ← hadded]
    rfl
  have hblank : blank (last ++ entry.render.toList) = false := by
    refine Bool.eq_false_iff.mpr fun hblank => ?_
    have hbrace := blank_iff.mp hblank '\x7b' (by simp [htext])
    revert hbrace
    decide
  rw [records_line, if_neg (by simp [hblank])] at hrecords
  have hold : records numbers order (before ++ if last = [] then [] else [last]) = .ok entries := by
    rw [← hold, ← hlog, recordsOf_getD]
    rfl
  rw [records_append] at hold
  obtain ⟨vs, hvs, hold⟩ := ok_of_bind hold
  obtain ⟨ws, hws, hold⟩ := ok_of_bind hold
  rw [hrecords, hvs]
  unfold EndsInLine
  rw [hlast]
  by_cases hspaces : ∀ c ∈ last, isJsonSpace c = true
  · have hnone : ws = [] := by
      by_cases hnil : last = []
      · rw [if_pos hnil] at hws
        exact (Except.ok.inj hws).symm
      · rw [if_neg hnil, records_line, if_pos (blank_iff.mpr fun c hc => whitespace_of_space (hspaces c hc))] at hws
        exact (Except.ok.inj hws).symm
    obtain rfl : vs ++ ws = entries := Except.ok.inj hold
    have hread : Value.read numbers order (String.ofList (last ++ entry.render.toList)) = some entry := by
      obtain ⟨v, hv, hkeep⟩ := Option.bind_eq_some_iff.mp (h.read numbers)
      rw [← String.ofList_toList (s := entry.render)] at hv
      rw [Value.read, fromStr_skip hspaces hv, Option.bind_some, hkeep]
    rw [parseRecord, hread, hnone, List.append_nil]
    exact ⟨fun _ => hspaces, fun _ => rfl⟩
  · have hbefore : blank last = true ∨ ∃ v, fromStr (String.ofList last) = some v := by
      by_cases hl : blank last = true
      · exact .inl hl
      · have hnil : last ≠ [] := by
          rintro rfl
          exact hspaces (List.forall_mem_nil _)
        rw [if_neg hnil, records_line, if_neg hl] at hws
        cases hv : fromStr (String.ofList last) with
        | none =>
          rw [parseRecord, Value.read, hv] at hws
          cases hws
        | some v => exact .inr ⟨v, rfl⟩
    have hends : Ends entry.render.toList := by
      intro c hc
      rw [htext] at hc
      obtain rfl : '\x7b' = c := Option.some.inj hc
      decide
    have hskip : skipSpace entry.render.toList ≠ [] := by
      rw [htext, skipSpace_cons _ (by decide)]
      exact List.cons_ne_nil _ _
    have hunread : fromStr (String.ofList (last ++ entry.render.toList)) = none := by
      rcases hbefore with hl | ⟨v, hv⟩
      · exact fromStr_glued (v := .null) hspaces (.inl hl) hends hskip
      · exact fromStr_glued hspaces (.inr hv) hends hskip
    rw [parseRecord, Value.read, hunread]
    refine iff_of_false (fun hok => ?_) hspaces
    cases hok

theorem EndsInLine.appended (log : Option String) (entry : Value) : EndsInLine (some (appended log entry)) := by
  have hlast : lastLine (Policy.appended log entry).toList = [] := by
    rw [lastLine, Policy.appended, ← String.append_assoc, String.toList_append]
    exact List.rtakeWhile_concat_neg _ _ _ (by decide)
  intro c hc
  rw [Option.getD_some, hlast] at hc
  cases hc

end

/-! ## What a command holds at each step -/

section
variable (sha256Hex : ByteArray → String) (order : FieldOrder) (numbers : Numbers)

def Holds : LogOp → Copy → Prop
  | .writeLog existing value, l => ∃ first current artifact, l = { log := some first, again := some existing, artifact := some artifact } ∧
      recordsOf numbers order first = .ok current ∧ accepted (verifyPolicyLogValues sha256Hex order current) = true ∧
      Continues sha256Hex order current artifact value
  | _, l => l.written = none

/-- A command that succeeds has written an entry of the artifact that it read. -/
def Succeeds : Result Value → Copy → Prop
  | .ok entry, l => l.written = some entry ∧
      ∃ artifact, l.artifact = some artifact ∧ entry.get "artifact_sha256" = some (.string (sha256Hex artifact))
  | .error _, _ => True

section
variable {ι : Type} (i : ι)

theorem readJsonl_always (path : String) : Always (logWorld ι) i (Holds sha256Hex order numbers)
    (fun r l => ∀ current, r = .ok current → ∃ first, l = { log := some first } ∧ recordsOf numbers order first = .ok current)
    (readJsonl numbers order path) {} := by
  refine Always.op rfl fun a log _ => ?_
  cases a with
  | error e => exact nofun
  | ok first => exact fun current hcurrent => ⟨first, rfl, hcurrent⟩

theorem readSignature_always (path : Option String) {l : Copy} (hwritten : l.written = none) {artifact : ByteArray}
    (hartifact : l.artifact = some artifact) :
    Always (logWorld ι) i (Holds sha256Hex order numbers) (fun _ l' => l' = l) (readSignature sha256Hex path) l := by
  cases path with
  | none => rfl
  | some path =>
    refine Always.op hwritten fun a _ _ => ?_
    cases a with
    | error e => rfl
    | ok bytes =>
      have hsame : ({ l with artifact := some (l.artifact.getD bytes) } : Copy) = l := by rw [hartifact, Option.getD_some, ← hartifact]
      exact hsame

theorem appendJsonl_always (path : String) {first : Option String} {current : List Value} {artifact : ByteArray} {entry : Value}
    (hrecords : recordsOf numbers order first = .ok current)
    (haccepted : accepted (verifyPolicyLogValues sha256Hex order current) = true)
    (hentry : Continues sha256Hex order current artifact entry) :
    Always (logWorld ι) i (Holds sha256Hex order numbers)
      (fun r l => ∀ u, r = .ok u → l = { artifact := some artifact, written := some entry }) (appendJsonl path entry)
      { log := some first, artifact := some artifact } := by
  refine Always.op rfl fun a _ _ => ?_
  cases a with
  | error e => exact nofun
  | ok u =>
    refine Always.op rfl fun a _ _ => ?_
    cases a with
    | error e => exact nofun
    | ok existing =>
      refine Always.op ⟨first, current, artifact, rfl, hrecords, haccepted, hentry⟩ fun a _ _ => ?_
      cases a with
      | error e => exact nofun
      | ok u => exact fun _ _ => rfl

theorem appendPolicyLogEntry_always (args : PolicyLogAppendArgs) :
    Always (logWorld ι) i (Holds sha256Hex order numbers) (Succeeds sha256Hex)
      (appendPolicyLogEntry sha256Hex order numbers args) {} := by
  refine (readJsonl_always sha256Hex order numbers i args.logPath).seq fun r l hread => ?_
  cases r with
  | error e => trivial
  | ok current =>
    obtain ⟨first, rfl, hrecords⟩ := hread current rfl
    dsimp only
    by_cases haccepted : accepted (verifyPolicyLogValues sha256Hex order current) = true
    · rw [if_pos haccepted]
      refine Always.op rfl fun a _ _ => ?_
      cases a with
      | error e => trivial
      | ok artifact =>
        refine (readSignature_always sha256Hex order numbers i args.signature rfl rfl).seq fun r l hl => ?_
        subst hl
        cases r with
        | error e => trivial
        | ok signatureSha256 =>
          refine Always.op rfl fun loggedAt _ _ => ?_
          have hentry := @newEntry_continues sha256Hex order current loggedAt artifact signatureSha256
          refine (appendJsonl_always sha256Hex order numbers i args.logPath hrecords haccepted hentry).seq fun r l hl => ?_
          cases r with
          | error e => trivial
          | ok u =>
            rw [hl u rfl]
            exact ⟨rfl, artifact, rfl, hentry.artifact⟩
    · rw [if_neg haccepted]
      trivial

end

end

section
variable {sha256Hex : ByteArray → String} {order : FieldOrder} {numbers : Numbers} {ι : Type}
  {args : ι → PolicyLogAppendArgs} {log : Option String}

theorem typed_start : Typed (logWorld ι) (fun _ => Holds sha256Hex order numbers) (fun _ => Succeeds sha256Hex)
    (logStart sha256Hex order numbers args log) := by
  intro i p hp
  obtain rfl := Option.some.inj hp
  exact appendPolicyLogEntry_always sha256Hex order numbers i (args i)

/-! ## One writer -/

/-- The log is as it was until it is written, and then has the entry that was built from it. -/
structure Alone (sha256Hex : ByteArray → String) (order : FieldOrder) (numbers : Numbers) (start : Option String)
    (l : Copy) (log : Option String) : Prop where
  unwritten : l.written = none → log = start
  first : ∀ body, l.log = some body → body = start
  again : ∀ body, l.again = some body → body = start
  written : ∀ entry, l.written = some entry → log = some (appended start entry) ∧
    ∃ current artifact, recordsOf numbers order start = .ok current ∧ Continues sha256Hex order current artifact entry

theorem Alone.answer {l : Copy} {g : Option String} (h : Alone sha256Hex order numbers log l g) {o : LogOp} {a : LogSig.Ans o}
    (hΦ : Holds sha256Hex order numbers o l) (hcan : o.can g a = true) :
    Alone sha256Hex order numbers log (o.loc a l) (o.sh a g) := by
  cases o with
  | readLog =>
    cases a with
    | error e => exact h
    | ok body =>
      have hbody : body = log := by
        rw [← h.unwritten hΦ]
        simpa [LogOp.can] using hcan
      by_cases hfirst : l.log.isNone = true
      · simp only [LogOp.loc, LogOp.sh, if_pos hfirst]
        exact ⟨h.unwritten, fun b hb => (Option.some.inj hb).symm.trans hbody, h.again, h.written⟩
      · simp only [LogOp.loc, LogOp.sh, if_neg hfirst]
        exact ⟨h.unwritten, h.first, fun b hb => (Option.some.inj hb).symm.trans hbody, h.written⟩
  | readFile path =>
    cases a with
    | error e => exact h
    | ok bytes => exact ⟨h.unwritten, h.first, h.again, h.written⟩
  | now => exact h
  | createDirAll => exact h
  | writeLog existing value =>
    cases a with
    | error e => cases hcan
    | ok u =>
      obtain ⟨first, current, artifact, rfl, hrecords, -, hentry⟩ := hΦ
      have hfirst : first = log := h.first first rfl
      have hagain : existing = log := h.again existing rfl
      subst hfirst hagain
      refine ⟨nofun, nofun, nofun, fun entry he => ?_⟩
      obtain rfl := Option.some.inj he
      exact ⟨rfl, current, artifact, hrecords, hentry⟩

theorem alone_reach {args : Unit → PolicyLogAppendArgs} {c : LogConf Unit}
    (hr : Reach (logWorld Unit) (fun _ _ => True) (logStart sha256Hex order numbers args log) c) :
    Alone sha256Hex order numbers log (c.loc ()) c.sh := by
  refine Typed.pool (J := fun loc g => Alone sha256Hex order numbers log (loc ()) g) typed_start
    ⟨fun _ => rfl, nofun, nofun, nofun⟩ ?_ ?_ (fun _ e => e.elim) hr
  · intro c i o a hJ hΦ _ hcan
    rw [Function.update_self]
    exact hJ.answer hΦ hcan
  · intro c i o hJ _ _ _
    rw [Function.update_self]
    exact ⟨hJ.unwritten, nofun, nofun, hJ.written⟩

/-- What an append without other writers leaves: the log is read as the old entries and the new
one, is accepted, and has the new one's hash as its head. -/
def Appended (sha256Hex : ByteArray → String) (order : FieldOrder) (numbers : Numbers) (entries : List Value) (entry : Value)
    (log : Option String) : Prop :=
  recordsOf numbers order log = .ok (entries ++ [entry]) ∧
    accepted (verifyPolicyLogValues sha256Hex order (entries ++ [entry])) = true ∧
    (verifyPolicyLogValues sha256Hex order (entries ++ [entry])).get "head" = entry.get "entry_hash"

end

/-! ### One run -/

def policyArgs : PolicyLogAppendArgs := ⟨"policy-transparency.jsonl", "policy.json", none⟩

/-- The answers of a file system that never fails. -/
def LogOp.answer (artifact : String) : (o : LogOp) → Option String → Option (LogSig.Ans o)
  | .readLog, log => some (.ok log)
  | .readFile _, _ => some (.ok artifact.toUTF8)
  | .now, _ => some "2026-05-01T08:00:00Z"
  | .createDirAll, _ | .writeLog _ _, _ => some (.ok ())

def turns {ι : Type} (i : ι) (artifact : String) (n : Nat) : List (Choice LogSig ι (Option String) Empty) :=
  List.replicate n (.answer i (LogOp.answer artifact))

def succeeded {ι : Type} (c : LogConf ι) (i : ι) : Bool :=
  match c.prog i with
  | some (.done (.ok _)) => true
  | _ => false

theorem of_succeeded {ι : Type} {c : LogConf ι} {i : ι} (h : succeeded c i = true) :
    ∃ entry, c.prog i = some (.done (.ok entry)) := by
  unfold succeeded at h
  split at h
  · rename_i entry hp
    exact ⟨entry, hp⟩
  · cases h

section
variable {sha256Hex : ByteArray → String} {order : FieldOrder} {numbers : Numbers} {ι : Type}
  {args : ι → PolicyLogAppendArgs} {log : Option String}

variable [DecidableEq ι]

/-- No command writes the log while another one has read it and may still write. -/
def NoOverlap (c : LogConf ι) : Label LogSig ι Empty → Prop
  | .answer i (.writeLog _ _) _ => ∀ j, j ≠ i → (c.loc j).log = none
  | _ => True

instance [Fintype ι] (c : LogConf ι) : (l : Label LogSig ι Empty) → Decidable (NoOverlap c l)
  | .answer i (.writeLog _ _) _ => inferInstanceAs (Decidable (∀ j, j ≠ i → (c.loc j).log = none))
  | .answer _ .readLog _ | .answer _ (.readFile _) _ | .answer _ .now _ | .answer _ .createDirAll _ | .drop _ | .env _ =>
    .isTrue trivial

/-- The copies are the log's text, and every entry that was written is in it. -/
structure InLog (sha256Hex : ByteArray → String) (order : FieldOrder) (numbers : Numbers) (loc : ι → Copy)
    (log : Option String) : Prop where
  line : EndsInLine log
  first : ∀ i body, (loc i).log = some body → body = log
  again : ∀ i body, (loc i).again = some body → body = log
  both : ∀ i, (loc i).log = none → (loc i).again = none
  written : ∀ i entry, (loc i).written = some entry → ∃ entries, recordsOf numbers order log = .ok entries ∧
    accepted (verifyPolicyLogValues sha256Hex order entries) = true ∧ entry ∈ entries

theorem InLog.update {loc : ι → Copy} {g : Option String} (h : InLog sha256Hex order numbers loc g) {i : ι} {l : Copy}
    (hfirst : ∀ body, l.log = some body → body = g) (hagain : ∀ body, l.again = some body → body = g)
    (hboth : l.log = none → l.again = none) (hwritten : l.written = (loc i).written) :
    InLog sha256Hex order numbers (Function.update loc i l) g := by
  refine ⟨h.line, fun j => ?_, fun j => ?_, fun j => ?_, fun j => ?_⟩
  all_goals
    by_cases hj : j = i
    · subst hj
      rw [Function.update_self]
      first
        | exact hfirst
        | exact hagain
        | exact hboth
        | exact hwritten ▸ h.written j
    · rw [Function.update_of_ne hj]
      first
        | exact h.first j
        | exact h.again j
        | exact h.both j
        | exact h.written j

theorem InLog.answer {c : LogConf ι} (h : InLog sha256Hex order numbers c.loc c.sh) {i : ι} {o : LogOp} {a : LogSig.Ans o}
    (hΦ : Holds sha256Hex order numbers o (c.loc i)) (hok : NoOverlap c (.answer i o a)) (hcan : o.can c.sh a = true) :
    InLog sha256Hex order numbers (Function.update c.loc i (o.loc a (c.loc i))) (o.sh a c.sh) := by
  cases o with
  | readLog =>
    cases a with
    | error e => exact h.update (h.first i) (h.again i) (h.both i) rfl
    | ok body =>
      have hbody : body = c.sh := by simpa [LogOp.can] using hcan
      by_cases hfirst : (c.loc i).log.isNone = true
      · simp only [LogOp.loc, LogOp.sh, if_pos hfirst]
        exact h.update (fun b hb => (Option.some.inj hb).symm.trans hbody) (h.again i) nofun rfl
      · simp only [LogOp.loc, LogOp.sh, if_neg hfirst]
        refine h.update (h.first i) (fun b hb => (Option.some.inj hb).symm.trans hbody) (fun hnone => ?_) rfl
        rw [hnone] at hfirst
        exact absurd rfl hfirst
  | readFile path =>
    cases a with
    | error e => exact h.update (h.first i) (h.again i) (h.both i) rfl
    | ok bytes => exact h.update (h.first i) (h.again i) (h.both i) rfl
  | now => exact h.update (h.first i) (h.again i) (h.both i) rfl
  | createDirAll => exact h.update (h.first i) (h.again i) (h.both i) rfl
  | writeLog existing value =>
    cases a with
    | error e => cases hcan
    | ok u =>
      obtain ⟨first, current, artifact, hl, hrecords, haccepted, hentry⟩ := hΦ
      have hfirst : first = c.sh := h.first i first (by rw [hl])
      have hagain : existing = c.sh := h.again i existing (by rw [hl])
      subst hfirst
      have hread := (readable_iff hrecords hentry).mpr h.line
      have hvalid := (accepted_append haccepted hentry).1
      have hothers : ∀ j, j ≠ i → (c.loc j).log = none := hok
      rw [hagain]
      refine ⟨.appended _ _, fun j => ?_, fun j => ?_, fun j => ?_, fun j => ?_⟩
      · by_cases hj : j = i
        · subst hj
          rw [Function.update_self]
          exact nofun
        · rw [Function.update_of_ne hj, hothers j hj]
          exact nofun
      · by_cases hj : j = i
        · subst hj
          rw [Function.update_self]
          exact nofun
        · rw [Function.update_of_ne hj, h.both j (hothers j hj)]
          exact nofun
      · by_cases hj : j = i
        · subst hj
          rw [Function.update_self]
          exact fun _ => rfl
        · rw [Function.update_of_ne hj]
          exact h.both j
      · intro entry hwritten
        refine ⟨_, hread, hvalid, ?_⟩
        by_cases hj : j = i
        · subst hj
          rw [Function.update_self] at hwritten
          obtain rfl := Option.some.inj hwritten
          simp
        · rw [Function.update_of_ne hj] at hwritten
          obtain ⟨entries, hentries, -, hmem⟩ := h.written j entry hwritten
          rw [hrecords] at hentries
          obtain rfl := Except.ok.inj hentries
          exact List.mem_append_left _ hmem

/-- The log is accepted, and has the artifact of every command that has reported success. -/
def EntriesKept (sha256Hex : ByteArray → String) (order : FieldOrder) (numbers : Numbers) (c : LogConf ι) : Prop :=
  ∀ i entry, c.prog i = some (.done (.ok entry)) → ∃ entries artifact, recordsOf numbers order c.sh = .ok entries ∧
    accepted (verifyPolicyLogValues sha256Hex order entries) = true ∧ entry ∈ entries ∧
    (c.loc i).artifact = some artifact ∧ entry.get "artifact_sha256" = some (.string (sha256Hex artifact))

/-- Commands that do not write in each other's window keep each other's entries. -/
theorem entriesKept_of_noOverlap (sha256Hex : ByteArray → String) (order : FieldOrder) (numbers : Numbers)
    (args : ι → PolicyLogAppendArgs) {log : Option String} (hline : EndsInLine log) {c : LogConf ι}
    (hr : Reach (logWorld ι) NoOverlap (logStart sha256Hex order numbers args log) c) :
    EntriesKept sha256Hex order numbers c := by
  have hlog : InLog sha256Hex order numbers c.loc c.sh := by
    refine Typed.pool (J := InLog sha256Hex order numbers) typed_start ⟨hline, nofun, nofun, fun _ _ => rfl, nofun⟩ ?_ ?_
      (fun _ e => e.elim) hr
    · intro c i o a hJ hΦ hok hcan
      exact hJ.answer hΦ hok hcan
    · intro c i o hJ _ _ _
      exact hJ.update nofun nofun (fun _ => rfl) rfl
  intro i entry hdone
  have hwritten : Succeeds sha256Hex (.ok entry) (c.loc i) := (typed_start.reach hr) i _ hdone
  obtain ⟨artifact, hartifact, hfield⟩ := hwritten.2
  obtain ⟨entries, hentries, haccepted, hmem⟩ := hlog.written i entry hwritten.1
  exact ⟨entries, artifact, hentries, haccepted, hmem, hartifact, hfield⟩

end

def twoWriters (i : Bool) : PolicyLogAppendArgs :=
  ⟨"policy-transparency.jsonl", if i then "allow.json" else "deny.json", none⟩

/-- One command has read the log for the second time when the other one reads and writes it. -/
theorem entry_lost : ¬ ∀ c : LogConf Bool,
    Reach (logWorld Bool) (fun _ _ => True) (logStart knownSha256Hex .inserted .written twoWriters none) c →
    (∀ i, ∃ entry, c.prog i = some (.done (.ok entry))) → EntriesKept knownSha256Hex .inserted .written c := by
  intro hclaim
  have hrun : ∃ c : LogConf Bool, (logStart knownSha256Hex .inserted .written twoWriters none).run (logWorld Bool)
      (fun _ _ => True) (turns true "allow" 5 ++ turns false "deny" 6 ++ turns true "allow" 1) = some c ∧
      succeeded c true = true ∧ succeeded c false = true ∧ (c.loc false).artifact = some "deny".toUTF8 ∧
      c.sh = some (appended none (newEntry knownSha256Hex .inserted [] "2026-05-01T08:00:00Z" "allow".toUTF8 none)) :=
    ⟨_, rfl, rfl, rfl, rfl, rfl⟩
  obtain ⟨c, hrun, htrue, hfalse, hread, hsh⟩ := hrun
  have hdone : ∀ i, ∃ entry, c.prog i = some (.done (.ok entry)) := by
    intro i
    cases i with
    | true => exact of_succeeded htrue
    | false => exact of_succeeded hfalse
  have hallowed := @newEntry_continues knownSha256Hex .inserted [] "2026-05-01T08:00:00Z" "allow".toUTF8 none
  have hline : EndsInLine none := nofun
  have hlog := (@readable_iff _ _ .written _ [] _ none rfl hallowed).mpr hline
  obtain ⟨entry, hentry⟩ := hdone false
  obtain ⟨entries, artifact, hentries, -, hmem, hartifact, hfield⟩ := hclaim c (Conf.run_reach hrun) hdone false entry hentry
  obtain rfl := Option.some.inj (hread.symm.trans hartifact)
  rw [hsh, hlog] at hentries
  obtain rfl := Except.ok.inj hentries
  obtain rfl := List.mem_singleton.mp hmem
  rw [hallowed.artifact] at hfield
  have hne : knownSha256Hex "allow".toUTF8 ≠ knownSha256Hex "deny".toUTF8 := by decide +kernel
  exact hne (Value.string.inj (Option.some.inj hfield))

/-- A command is killed after it has read the log, and the other one writes. -/
theorem entry_kept_beside_killed : ∃ c : LogConf Bool, (∃ entry, c.prog true = some (.done (.ok entry))) ∧
    EntriesKept knownSha256Hex .inserted .written c := by
  have hrun : ∃ c, Reach (logWorld Bool) NoOverlap (logStart knownSha256Hex .inserted .written twoWriters none) c ∧
      succeeded c true = true :=
    Conf.exists_reach (turns false "deny" 2 ++ .drop false :: turns true "allow" 6) (by decide +kernel)
  obtain ⟨c, hr, htrue⟩ := hrun
  have hline : EndsInLine none := nofun
  exact ⟨c, of_succeeded htrue, entriesKept_of_noOverlap _ _ _ twoWriters hline hr⟩

end Llmctl.Policy
