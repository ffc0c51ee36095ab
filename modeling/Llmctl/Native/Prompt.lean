import Llmctl.Routing
import Llmctl.Value

/-!
# Prompt templates

How the messages of a chat are written out for each model family.
-/

namespace Llmctl.Native

inductive CandleModelFamily where
  | qwen3
  | qwen3Moe
  | gemma4
  | deepSeek
  | kimi
  | mistral
  | miniMax
  deriving DecidableEq, Repr

structure NativeChatMessage where
  role : String
  content : Option Value := none
  toolCalls : Option Value := none
  toolCallId : Option String := none

def partText (part : Value) : Option String :=
  match part.get "text" with
  | some (.string s) => some s
  | _ => part.asStr

def messageContentText (message : NativeChatMessage) : String :=
  match message.content with
  | some (.string content) => content
  | some (.array parts) => "\n".intercalate (parts.filterMap partText)
  | some .null | none => ""
  | some other => other.render

def canonicalNativeChatInput (messages : List NativeChatMessage) : String :=
  String.join (messages.map fun message =>
    "<|" ++ message.role ++ "|>\n" ++ messageContentText message ++
      (if message.toolCalls.isSome then "\n<|assistant_tool_calls|>" else "") ++
      (match message.toolCallId with
        | some id => "\n<|tool_call_id|>" ++ id
        | none => "") ++ "\n")

def gemmaRole : String → String
  | "assistant" => "model"
  | "system" => "system"
  | _ => "user"

def gemmaChatInput (messages : List NativeChatMessage) : String :=
  String.join (messages.map fun message =>
    "<|turn>" ++ gemmaRole message.role ++ "\n" ++ trim (messageContentText message) ++ "<turn|>\n") ++
    "<|turn>model\n<|channel>thought\n<channel|>"

def mistralTurn (message : NativeChatMessage) : String :=
  let content := messageContentText message
  match message.role with
  | "assistant" => " " ++ content ++ "</s>"
  | _ => "[INST] " ++ content ++ " [/INST]"

def chatMlRole : String → String
  | "assistant" => "assistant"
  | "system" => "system"
  | _ => "user"

def formatNativeChatPrompt (family : CandleModelFamily) (messages : List NativeChatMessage) : String :=
  match family with
  | .mistral => "<s>" ++ String.join (messages.map mistralTurn)
  | .qwen3 | .qwen3Moe =>
    String.join (messages.map fun message =>
      "<|im_start|>" ++ chatMlRole message.role ++ "\n" ++ messageContentText message ++ "<|im_end|>\n") ++
      "<|im_start|>assistant\n"
  | .gemma4 => gemmaChatInput messages
  | _ => canonicalNativeChatInput messages

end Llmctl.Native
