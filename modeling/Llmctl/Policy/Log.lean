import Llmctl.Async.World
import Llmctl.Routing
import Llmctl.Text.Document
import Llmctl.Text.Lines

/-!
# The policy log

A file with one JSON entry in a line. An entry holds the hash of its other fields and the
hash of the entry before it. An append reads and verifies the file, builds the entry, reads
the file once more and writes all of it.
-/

namespace Llmctl.Policy

open Async Text

/-! ## The hash chain -/

section
variable (sha256Hex : ByteArray → String)

def policyLogEntryHash (entry : Value) : String :=
  sha256Hex (Value.removeField "entry_hash" entry).canonicalJson.toUTF8

variable (order : FieldOrder)

def policyLogVerification (valid : Bool) (entries failedIndex : Nat) (reason : String) : Value :=
  .json order [("status", .string (if valid then "valid" else "invalid")), ("valid", .bool valid),
    ("entries", .number entries.repr), ("failed_index", .number failedIndex.repr), ("reason", .string reason)]

def optional (s : Option String) : Value := (s.map .string).getD .null

/-- The `usize` of a count, as a `u64`. -/
def usize (n : Nat) : Nat := n % 2 ^ 64

/-- The entries from `index` on, `previousHash` being the hash before them. -/
def verifyFrom (total index : Nat) (previousHash : Option String) : List Value → Value
  | [] =>
    .json order [("status", .string "valid"), ("valid", .bool true), ("entries", .number total.repr),
      ("head", optional previousHash)]
  | entry :: entries =>
    match (entry.get "entry_hash").bind Value.asStr with
    | none => policyLogVerification order false total index "missing entry_hash"
    | some actualHash =>
      if (entry.get "index").bind Value.asU64 ≠ some (usize index) then
        policyLogVerification order false total index "index mismatch"
      else if (entry.get "previous_hash").bind Value.asStr ≠ previousHash then
        policyLogVerification order false total index "previous_hash mismatch"
      else if actualHash ≠ policyLogEntryHash sha256Hex entry then
        policyLogVerification order false total index "entry_hash mismatch"
      else verifyFrom total (index + 1) (some actualHash) entries

def verifyPolicyLogValues (entries : List Value) : Value := verifyFrom sha256Hex order entries.length 0 none entries

def accepted (verification : Value) : Bool := ((verification.get "valid").bind Value.asBool).getD false

end

/-! ## The file -/

section
variable (numbers : Numbers) (order : FieldOrder)

def parseRecord (line : List Char) : Result Value :=
  match Value.read numbers order (String.ofList line) with
  | some v => .ok v
  | none => .error "parse jsonl record"

def parseJsonl (body : String) : Result (List Value) :=
  ((lines body.toList).filter fun line => !(trim (String.ofList line)).isEmpty).mapM (parseRecord numbers order)

/-- A file that is missing has no records. -/
def recordsOf : Option String → Result (List Value)
  | none => .ok []
  | some body => parseJsonl numbers order body

end

/-! ## Appending -/

structure PolicyLogAppendArgs where
  logPath : String
  artifact : String
  signature : Option String

/-- The log itself is read and written; other files are read. A write puts a value, in a
line, after the text that was read. -/
inductive LogOp where
  | readLog
  | readFile (path : String)
  | now
  | createDirAll
  | writeLog (existing : Option String) (value : Value)

@[reducible] def LogSig : Sig where
  Op := LogOp
  Ans
    | .readLog => Result (Option String)
    | .readFile _ => Result ByteArray
    | .now => String
    | .createDirAll | .writeLog _ _ => Result Unit

def readJsonl (numbers : Numbers) (order : FieldOrder) (path : String) : Prog LogSig (Result (List Value)) := do
  match ← Prog.op (S := LogSig) .readLog with
  | .error _ => pure (.error s!"read {path}")
  | .ok body => pure (recordsOf numbers order body)

def appended (existing : Option String) (value : Value) : String := existing.getD "" ++ (value.render ++ "\n")

def appendJsonl (path : String) (value : Value) : Prog LogSig (Result Unit) := do
  match ← Prog.op (S := LogSig) .createDirAll with
  | .error e => pure (.error e)
  | .ok _ =>
    match ← Prog.op (S := LogSig) .readLog with
    | .error _ => pure (.error s!"read {path}")
    | .ok existing =>
      match ← Prog.op (S := LogSig) (.writeLog existing value) with
      | .error _ => pure (.error s!"write {path}")
      | .ok _ => pure (.ok ())

section
variable (sha256Hex : ByteArray → String) (order : FieldOrder)

/-- The fields of a new entry but its hash. -/
def entryFields (current : List Value) (loggedAt : String) (artifact : ByteArray) (signatureSha256 : Option String) :
    List (String × Value) :=
  let previousHash := (current.getLast?.bind fun entry => entry.get "entry_hash").bind Value.asStr
  [("schema_version", .number "1"), ("kind", .string "policy-transparency-log-entry"),
    ("index", .number (usize current.length).repr), ("logged_at", .string loggedAt),
    ("artifact_sha256", .string (sha256Hex artifact)), ("signature_sha256", optional signatureSha256),
    ("previous_hash", optional previousHash)]

def newEntry (current : List Value) (loggedAt : String) (artifact : ByteArray) (signatureSha256 : Option String) : Value :=
  let body := Value.json order (entryFields sha256Hex current loggedAt artifact signatureSha256)
  body.setField order "entry_hash" (.string (policyLogEntryHash sha256Hex body))

def readSignature (path : Option String) : Prog LogSig (Result (Option String)) :=
  match path with
  | none => pure (.ok none)
  | some path => do
    match ← Prog.op (S := LogSig) (.readFile path) with
    | .error _ => pure (.error s!"read {path}")
    | .ok bytes => pure (.ok (some (sha256Hex bytes)))

def appendPolicyLogEntry (numbers : Numbers) (args : PolicyLogAppendArgs) : Prog LogSig (Result Value) := do
  match ← readJsonl numbers order args.logPath with
  | .error e => pure (.error e)
  | .ok current =>
    if accepted (verifyPolicyLogValues sha256Hex order current) then
      match ← Prog.op (S := LogSig) (.readFile args.artifact) with
      | .error _ => pure (.error s!"read {args.artifact}")
      | .ok artifact =>
        match ← readSignature sha256Hex args.signature with
        | .error e => pure (.error e)
        | .ok signatureSha256 =>
          let loggedAt ← Prog.op (S := LogSig) .now
          let entry := newEntry sha256Hex order current loggedAt artifact signatureSha256
          match ← appendJsonl args.logPath entry with
          | .error e => pure (.error e)
          | .ok _ => pure (.ok entry)
    else pure (.error "policy transparency log hash chain is invalid")

end

/-! ## Several writers -/

/-- What a command has read, and what it has written. -/
structure Copy where
  /-- The log as it was first read, and as it was read again, until it is written. -/
  log : Option (Option String) := none
  again : Option (Option String) := none
  /-- The first file that is read is the artifact. -/
  artifact : Option ByteArray := none
  written : Option Value := none

/-- The time may be any; a write that fails is no step of a run, for what it leaves is not known. -/
def LogOp.can (log : Option String) : (o : LogOp) → LogSig.Ans o → Bool
  | .readLog, .ok body => body == log
  | .writeLog _ _, .error _ => false
  | _, _ => true

def LogOp.loc : (o : LogOp) → LogSig.Ans o → Copy → Copy
  | .readLog, .ok body, l => if l.log.isNone then { l with log := some body } else { l with again := some body }
  | .readFile _, .ok bytes, l => { l with artifact := some (l.artifact.getD bytes) }
  | .writeLog _ value, .ok _, l => { artifact := l.artifact, written := some value }
  | _, _, l => l

/-- A write replaces the whole file. -/
def LogOp.sh : (o : LogOp) → LogSig.Ans o → Option String → Option String
  | .writeLog existing value, .ok _, _ => some (appended existing value)
  | _, _, log => log

/-- A command can be killed at any step. -/
def logWorld (ι : Type) : World LogSig ι Copy (Option String) Empty where
  can _ o a _ log := o.can log a
  loc _ o a l := o.loc a l
  sh _ o a _ log := o.sh a log
  canDrop _ _ := true
  dropLoc _ _ l := { l with log := none, again := none }
  dropSh _ _ _ log := log
  canEnv e _ := e.elim
  env e _ := e.elim

abbrev LogConf (ι : Type) := Conf LogSig (Result Value) ι Copy (Option String)

def logStart {ι : Type} (sha256Hex : ByteArray → String) (order : FieldOrder) (numbers : Numbers)
    (args : ι → PolicyLogAppendArgs) (log : Option String) : LogConf ι where
  prog i := some (appendPolicyLogEntry sha256Hex order numbers (args i))
  loc _ := {}
  sh := log

end Llmctl.Policy
