import Llmctl.Sse
import Llmctl.Text.Document
import Llmctl.Text.Utf8

/-!
# The usage of a stream's chunks

`SseUsageParser` gets the bytes of a stream in chunks and decodes each of them by itself. How
`serde_json` keeps numbers and fields is a parameter.
-/

namespace Llmctl

open Text

def usageTokensFromValue (value : Value) : Nat × Nat :=
  match value.get "usage" with
  | none => (0, 0)
  | some usage =>
    (((usage.get "prompt_tokens").or (usage.get "input_tokens")).bind Value.asU64 |>.getD 0,
      ((usage.get "completion_tokens").or (usage.get "output_tokens")).bind Value.asU64 |>.getD 0)

def addUsage (total used : Nat × Nat) : Nat × Nat := (saturatingAdd total.1 used.1, saturatingAdd total.2 used.2)

namespace SseUsageParser

section
variable (numbers : Numbers) (order : FieldOrder)

def dataUsage (data : String) : Option (Nat × Nat) := (Value.read numbers order data).map usageTokensFromValue

/-- The buffer and the usage after one more chunk. -/
def push (st : List Char × (Nat × Nat)) (chunk : List UInt8) : Except String (List Char × (Nat × Nat)) := do
  let (buffer, used) ← ssePush (dataUsage numbers order) st.1 (String.ofList (lossy chunk))
  pure (buffer, addUsage st.2 used)

def pushAll (chunks : List (List UInt8)) : Except String (List Char × (Nat × Nat)) :=
  chunks.foldlM (push numbers order) ([], (0, 0))

/-- The usage of a stream that comes in these chunks. -/
def outcome (chunks : List (List UInt8)) : Except String (Nat × Nat) := (pushAll numbers order chunks).map Prod.snd

end

end SseUsageParser

end Llmctl
