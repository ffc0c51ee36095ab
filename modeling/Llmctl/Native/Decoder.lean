import Llmctl.Async.World
import Llmctl.Async.Replay
import Llmctl.Native.Gemma4
import Llmctl.Native.Prompt

/-!
# The decoder

`RealCandleDecoder` runs one generation after the other on one model: under its
lock it resets the model's cache, encodes the prompt and samples token by token.
-/

namespace Llmctl.Native

open Async

/-! ## Models -/

inductive RealCandleModel (T κ : Type) where
  | qwen3 (model : CandleModel T κ)
  | qwen3Gguf (model : CandleModel T κ)
  | qwen3MoeGguf (model : CandleModel T κ)
  | deepSeek2 (model : CandleModel T κ)
  | gemma3 (model : CandleModel T κ)
  | gemma4Gguf (weights : ModelWeights T)
  | mistral (model : CandleModel T κ)
  | mistralGguf (model : CandleModel T κ)

inductive KvCacheReset where
  | cleared
  | retained
  deriving DecidableEq, Repr

namespace RealCandleModel

variable {T κ : Type}

@[reducible] def Cache : RealCandleModel T κ → Type
  | .gemma4Gguf weights => weights.Caches
  | _ => κ

def loaded : (m : RealCandleModel T κ) → m.Cache
  | .qwen3 model | .qwen3Gguf model | .qwen3MoeGguf model | .deepSeek2 model | .gemma3 model | .mistral model
  | .mistralGguf model => model.loaded
  | .gemma4Gguf _ => fun _ => none

def forward (C : Candle T) : (m : RealCandleModel T κ) → T → Nat → m.Cache → Result T × m.Cache
  | .qwen3 model | .qwen3Gguf model | .qwen3MoeGguf model | .deepSeek2 model | .gemma3 model | .mistral model
  | .mistralGguf model => model.forward
  | .gemma4Gguf weights => weights.forward C

def resetKvCache : (m : RealCandleModel T κ) → m.Cache → KvCacheReset × m.Cache
  | .qwen3 model, cache | .qwen3Gguf model, cache | .deepSeek2 model, cache | .gemma3 model, cache
  | .mistral model, cache => (.cleared, model.clearKvCache cache)
  | .gemma4Gguf weights, cache => (.cleared, weights.clearKvCache cache)
  | .qwen3MoeGguf _, cache | .mistralGguf _, cache => (.retained, cache)

end RealCandleModel

/-! ## Sampling -/

structure NativeChatRequest where
  messages : List NativeChatMessage
  temperature : Option Float32 := none
  maxTokens : Option Nat := none
  topP : Option Float32 := none
  topK : Option Nat := none
  seed : Option Nat := none
  stop : Option (List String) := none

def defaultSamplingSeed : Nat := 299792458

inductive Sampling where
  | argMax
  | all (temperature : Float)
  | topK (k : Nat) (temperature : Float)
  | topP (p temperature : Float)
  | topKThenTopP (k : Nat) (p temperature : Float)

def samplingFromRequest (request : NativeChatRequest) : Sampling :=
  match (request.temperature.map Float32.toFloat).filter fun t => t ≥ 1e-7 with
  | none => .argMax
  | some temperature =>
    let topK := request.topK.filter fun k => 0 < k
    let topP := (request.topP.map Float32.toFloat).filter fun p => p > 0.0 && p < 1.0
    match topK, topP with
    | some k, some p => .topKThenTopP k p temperature
    | some k, none => .topK k temperature
    | none, some p => .topP p temperature
    | none, none => .all temperature

/-- `LogitsProcessor`, a seeded sampler with its state. -/
structure LogitsProcessor (T ρ : Type) where
  fromSampling : (seed : Nat) → Sampling → ρ
  sample : ρ → T → Result (Nat × ρ)

structure Tokenizer where
  encode : String → Result (List Nat)
  decode : List Nat → Result String
  idToToken : Nat → Option String

def isEosToken (tokenizer : Tokenizer) (id : Nat) : Bool :=
  match tokenizer.idToToken id with
  | some token => ["</s>", "<|endoftext|>", "<end_of_turn>", "<turn|>", "<eos>"].contains token
  | none => false

def prependBosIfConfigured (inputIds : List Nat) : Option Nat → List Nat
  | none => inputIds
  | some bos => if inputIds.head? = some bos then inputIds else bos :: inputIds

def findText (needle : List Char) : List Char → Option Nat
  | [] => if needle.isEmpty then some 0 else none
  | c :: cs => if needle.isPrefixOf (c :: cs) then some 0 else (findText needle cs).map (· + 1)

def findStop (stop : List String) (text : String) : Option Nat :=
  (stop.filterMap fun needle => findText needle.toList text.toList).min?

def visibleText (stop : List String) (text : String) : List Char :=
  match findStop stop text with
  | some idx => text.toList.take idx
  | none => text.toList

/-! ## Operations -/

inductive DecoderOp (T ρ : Type) where
  | lock
  | unlock
  | resetKvCache
  | swapServed
  | encode (prompt : String)
  | nextTokenLogits (inputIds : List Nat) (offset : Nat)
  | sample (state : ρ) (logits : T)
  | decode (tokens : List Nat)
  | onToken (delta : String)

/-- `lock` answers whether the mutex is sound; a failed forward pass leaves any cache. -/
@[reducible] def DecoderSig (T ρ γ : Type) : Sig where
  Op := DecoderOp T ρ
  Ans
    | .lock | .swapServed => Bool
    | .unlock | .onToken _ => Unit
    | .resetKvCache => KvCacheReset
    | .encode _ => Result (List Nat)
    | .nextTokenLogits .. => Except (String × γ) T
    | .sample .. => Result (Nat × ρ)
    | .decode _ => Result String

structure RealCandleDecoder (T κ ρ : Type) where
  tokenizer : Tokenizer
  model : RealCandleModel T κ
  candle : Candle T
  family : CandleModelFamily
  bosTokenId : Option Nat
  sampler : LogitsProcessor T ρ

structure NativeGeneration where
  text : String
  promptTokens : Nat
  completionTokens : Nat
  finishReason : String
  deriving DecidableEq, Repr

section
variable {T κ ρ : Type} (d : RealCandleDecoder T κ ρ)

abbrev DecoderProg := Prog (DecoderSig T ρ d.model.Cache)

namespace RealCandleDecoder

def selectLogits (logits : T) : Result T :=
  match d.candle.dims logits with
  | [_, seqLen, _] => do
    let t ← d.candle.narrow logits 1 (seqLen - 1) 1
    let t ← d.candle.squeeze t 1
    d.candle.squeeze t 0
  | [seqLen, _] => do
    let t ← d.candle.narrow logits 0 (seqLen - 1) 1
    d.candle.squeeze t 0
  | [_] => .ok logits
  | dims => .error s!"native Candle model returned unsupported logits shape: {dims}"

def nextTokenLogits (inputIds : List Nat) (offset : Nat) (cache : d.model.Cache) : Result T × d.model.Cache :=
  match d.candle.row inputIds with
  | .error _ => (.error "failed to create native input tensor", cache)
  | .ok input =>
    match d.model.forward d.candle input offset cache with
    | (.error _, cache) => (.error "native Candle model forward pass failed", cache)
    | (.ok logits, cache) => (d.selectLogits logits, cache)

end RealCandleDecoder

/-! ## A generation -/

variable {d}

/-- The `?` operator. -/
def andThen {S : Sig} {α β ε : Type} (p : Prog S (Except ε α)) (f : α → Prog S (Result β)) (err : ε → String) :
    Prog S (Result β) := do
  match ← p with
  | .ok a => f a
  | .error e => pure (.error (err e))

variable (d)

structure Generating (ρ : Type) where
  sampler : ρ
  inputIds : List Nat
  generated : List Nat
  offset : Nat
  emittedChars : Nat
  stopped : Bool

/-- Hands the new part of the output to `on_token`; whether a stop sequence was hit. -/
def flushDelta (stop : List String) (generated : List Nat) (emittedChars : Nat) : DecoderProg d (Result (Bool × Nat)) :=
  andThen (Prog.op (S := DecoderSig T ρ d.model.Cache) (.decode generated))
    (fun full => do
      let visible := visibleText stop full
      let hitStop := (findStop stop full).isSome
      if emittedChars < visible.length then
        Prog.op (S := DecoderSig T ρ d.model.Cache) (.onToken (String.ofList (visible.drop emittedChars)))
        pure (.ok (hitStop, visible.length))
      else pure (.ok (hitStop, emittedChars)))
    fun e => "failed to decode native output tokens: " ++ e

/-- One step of the loop: a forward pass over `stepInput` and the token sampled from it. -/
def decodeStep (stop : List String) (st : Generating ρ) (stepInput : List Nat) : DecoderProg d (Result (Generating ρ)) :=
  andThen (Prog.op (S := DecoderSig T ρ d.model.Cache) (.nextTokenLogits stepInput st.offset))
    (fun logits => andThen (Prog.op (S := DecoderSig T ρ d.model.Cache) (.sample st.sampler logits))
      (fun (next, sampler) =>
        let st := { st with sampler, offset := st.offset + stepInput.length, inputIds := st.inputIds ++ [next] }
        if isEosToken d.tokenizer next then pure (.ok { st with stopped := true })
        else
          let generated := st.generated ++ [next]
          andThen (flushDelta d stop generated st.emittedChars)
            (fun (hitStop, emittedChars) => pure (.ok { st with generated, emittedChars, stopped := hitStop }))
            id)
      fun e => "native token sampling failed: " ++ e)
    fun e => e.1

def generateLoop (stop : List String) : Nat → Generating ρ → DecoderProg d (Result (Generating ρ))
  | 0, st => pure (.ok st)
  | steps + 1, st =>
    if st.stopped then pure (.ok st)
    else andThen (decodeStep d stop st [st.inputIds.getLastD 0]) (fun st => generateLoop stop steps st) id

def maxTokens (request : NativeChatRequest) : Nat := max 1 (min (request.maxTokens.getD 128) 4096)

def generateFrom (request : NativeChatRequest) (inputIds : List Nat) : DecoderProg d (Result NativeGeneration) :=
  let stop := request.stop.getD []
  let seed := request.seed.getD defaultSamplingSeed
  let st : Generating ρ :=
    { sampler := d.sampler.fromSampling seed (samplingFromRequest request), inputIds, generated := [], offset := 0,
      emittedChars := 0, stopped := false }
  andThen (decodeStep d stop st inputIds)
    (fun st => andThen (generateLoop d stop (maxTokens request - 1) st)
      (fun st => andThen (Prog.op (S := DecoderSig T ρ d.model.Cache) (.decode st.generated))
        (fun text => pure (.ok ⟨String.ofList (visibleText stop text), inputIds.length, st.generated.length,
          if st.stopped then "stop" else "length"⟩))
        fun e => "failed to decode native output tokens: " ++ e)
      id)
    id

def generateSession (request : NativeChatRequest) : DecoderProg d (Result NativeGeneration) :=
  andThen (Prog.op (S := DecoderSig T ρ d.model.Cache) (.encode (formatNativeChatPrompt d.family request.messages)))
    (fun ids =>
      let inputIds := prependBosIfConfigured ids d.bosTokenId
      if inputIds.isEmpty then pure (.error "native prompt tokenization produced no tokens")
      else generateFrom d request inputIds)
    fun e => "failed to tokenize native prompt: " ++ e

def retainedState : String :=
  "native model KV cache cannot be cleared for this family in candle 0.10.2; " ++
    "refusing to serve a second request off retained KV state to avoid " ++
    "cross-request contamination — a fresh session (model reload) is required per request"

def admitFreshKvSession (reset : KvCacheReset) : DecoderProg d (Result Unit) := do
  let alreadyServed ← Prog.op (S := DecoderSig T ρ d.model.Cache) .swapServed
  if reset = .retained ∧ alreadyServed then pure (.error retainedState) else pure (.ok ())

/-- What `generate_streaming` does while it holds the lock. -/
def generateLocked (request : NativeChatRequest) : DecoderProg d (Result NativeGeneration) := do
  let reset ← Prog.op (S := DecoderSig T ρ d.model.Cache) .resetKvCache
  andThen (admitFreshKvSession d reset) (fun _ => generateSession d request) id

def lockPoisoned : String := "native Candle model lock is poisoned"

def generateStreaming (request : NativeChatRequest) : DecoderProg d (Result NativeGeneration) := do
  if ← Prog.op (S := DecoderSig T ρ d.model.Cache) .lock then
    let result ← generateLocked d request
    Prog.op (S := DecoderSig T ρ d.model.Cache) .unlock
    pure result
  else pure (.error lockPoisoned)

end

end Llmctl.Native
