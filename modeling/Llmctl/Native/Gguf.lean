import Llmctl.Native.Gemma4

/-!
# Loading the Gemma 4 model

The layers of a GGUF file: their head dimension comes from the shape of a tensor, the layer
whose keys and values they share from the number of layers that own theirs.
-/

namespace Llmctl.Native

/-- What the candle crates do with metadata, weights and the tensors of a layer. -/
structure GgufCandle (T V W R : Type) extends Candle T where
  toU32 : V → Result Nat
  toF32 : V → Result R
  defaultRopeFreqGlobal : R
  defaultRopeFreqSwa : R
  unitScale : R
  dequantize : W → Result W
  qMatMul : W → Result W
  rmsNorm : W → (eps : R) → Result W
  scalar : W → Result R
  rotaryEmbedding : (headDim : Nat) → (freqBase : R) → Result W
  matMul : W → T → Result T
  norm : W → T → Result T
  /-- Reshapes the rows to heads and puts the heads first. -/
  heads : T → (b seq count headDim : Nat) → Result T
  /-- `rope` with the slices of the table that begin at the position. -/
  rope : (table : W) → T → (pos : Nat) → Result T
  /-- Divides each vector of the last dimension by its norm. -/
  normalize : T → (eps : R) → Result T

structure Content (V W : Type) where
  metadata : String → Option V
  tensorInfos : String → Option (List Nat)
  tensor : String → Result W

/-- What `from_gguf` reads of the metadata. -/
structure Hyperparameters (R : Type) where
  headCount : Nat
  headCountKv : Nat
  blockCount : Nat
  embeddingLength : Nat
  keyLengthGlobal : Nat
  keyLengthSwa : Nat
  rmsNormEps : R
  slidingWindowSize : Nat
  ropeFreqGlobal : R
  ropeFreqSwa : R
  finalLogitSoftcap : Option R
  sharedKvLayers : Nat
  deriving DecidableEq

structure GgufMlp (W : Type) where
  gate : W
  up : W
  down : W

structure GgufLayer (W R : Type) where
  wq : W
  wk : W
  wv : W
  wo : W
  qNorm : W
  kNorm : W
  attnNorm : W
  postAttnNorm : W
  ffnNorm : W
  postFfnNorm : W
  mlp : GgufMlp W
  inpGate : W
  proj : W
  postNorm : W
  layerScalar : R
  kvSourceLayer : Option Nat
  nHead : Nat
  nKvHead : Nat
  headDim : Nat
  qDim : Nat
  rmsNormEps : R
  slidingWindow : Option Nat
  rope : W

structure GgufModel (W R : Type) where
  tokEmbeddings : W
  embeddingLength : Nat
  layers : List (GgufLayer W R)
  norm : W
  output : W
  perLayerTokenEmbd : W
  perLayerModelProj : W
  perLayerProjNorm : W
  numLayers : Nat
  perLayerDim : Nat
  finalLogitSoftcap : Option R

section
variable {T V W R : Type} (C : GgufCandle T V W R) (ct : Content V W)

namespace Content

def md (key : String) : Result V :=
  match ct.metadata s!"gemma3.{key}" with
  | some v => .ok v
  | none => .error s!"missing GGUF key gemma3.{key}"

def u32 (key : String) : Result Nat := do C.toU32 (← ct.md key)

def f32 (key : String) : Result R := do C.toF32 (← ct.md key)

def hyperparameters : Result (Hyperparameters R) := do
  let headCount ← ct.u32 C "attention.head_count"
  let headCountKv ← ct.u32 C "attention.head_count_kv"
  let blockCount ← ct.u32 C "block_count"
  let embeddingLength ← ct.u32 C "embedding_length"
  let keyLengthGlobal ← ct.u32 C "attention.key_length"
  let rmsNormEps ← ct.f32 C "attention.layer_norm_rms_epsilon"
  let slidingWindowSize ← ct.u32 C "attention.sliding_window"
  pure
    { headCount, headCountKv, blockCount, embeddingLength, keyLengthGlobal
      keyLengthSwa := (ct.u32 C "attention.key_length_swa").toOption.getD (keyLengthGlobal / 2)
      rmsNormEps, slidingWindowSize
      ropeFreqGlobal := (ct.f32 C "rope.freq_base").toOption.getD C.defaultRopeFreqGlobal
      ropeFreqSwa := (ct.f32 C "rope.freq_base_swa").toOption.getD C.defaultRopeFreqSwa
      finalLogitSoftcap := (ct.f32 C "final_logit_softcapping").toOption
      sharedKvLayers := (ct.u32 C "attention.shared_kv_layers").toOption.getD 0 }

end Content

namespace Hyperparameters

variable (hy : Hyperparameters R)

def nOwnKv : Nat := hy.blockCount - hy.sharedKvLayers

/-- A division by zero panics. -/
def headDim (n : Nat) : Result Nat :=
  match (ct.tensorInfos s!"blk.{n}.attn_q.weight").bind List.head? with
  | some qOut => if hy.headCount = 0 then .error "attempt to divide by zero" else .ok (qOut / hy.headCount)
  | none => .ok hy.keyLengthGlobal

def isSwa (headDim : Nat) : Bool := headDim == hy.keyLengthSwa

def kvSourceLayer (n headDim : Nat) : Option Nat :=
  if hy.nOwnKv ≤ n then some (hy.nOwnKv - if hy.isSwa headDim then 2 else 1) else none

def loadLayer (n : Nat) : Result (GgufLayer W R) := do
  let headDim ← hy.headDim ct n
  let matrix (name : String) : Result W := do C.qMatMul (← ct.tensor s!"blk.{n}.{name}.weight")
  let norm (name : String) : Result W := do C.rmsNorm (← ct.tensor s!"blk.{n}.{name}.weight") hy.rmsNormEps
  let wq ← matrix "attn_q"
  let wk ← matrix "attn_k"
  let wv ← matrix "attn_v"
  let wo ← matrix "attn_output"
  let qNorm ← norm "attn_q_norm"
  let kNorm ← norm "attn_k_norm"
  let attnNorm ← norm "attn_norm"
  let postAttnNorm ← norm "post_attention_norm"
  let ffnNorm ← norm "ffn_norm"
  let postFfnNorm ← norm "post_ffw_norm"
  let gate ← matrix "ffn_gate"
  let up ← matrix "ffn_up"
  let down ← matrix "ffn_down"
  let inpGate ← matrix "inp_gate"
  let proj ← matrix "proj"
  let postNorm ← norm "post_norm"
  let layerScalar := (ct.tensor s!"blk.{n}.layer_output_scale.weight" >>= C.scalar).toOption.getD C.unitScale
  let rope ← C.rotaryEmbedding headDim (if hy.isSwa headDim then hy.ropeFreqSwa else hy.ropeFreqGlobal)
  pure
    { wq, wk, wv, wo, qNorm, kNorm, attnNorm, postAttnNorm, ffnNorm, postFfnNorm
      mlp := { gate, up, down }
      inpGate, proj, postNorm, layerScalar
      kvSourceLayer := hy.kvSourceLayer n headDim
      nHead := hy.headCount
      nKvHead := hy.headCountKv
      headDim
      qDim := hy.headCount * headDim
      rmsNormEps := hy.rmsNormEps
      slidingWindow := if hy.isSwa headDim then some hy.slidingWindowSize else none
      rope }

end Hyperparameters

def fromGguf : Result (GgufModel W R) := do
  let hy ← ct.hyperparameters C
  let tokEmbeddings ← C.dequantize (← ct.tensor "token_embd.weight")
  let norm ← C.rmsNorm (← ct.tensor "output_norm.weight") hy.rmsNormEps
  let output ← (ct.tensor "output.weight").orElseLazy fun _ => ct.tensor "token_embd.weight"
  let layers ← (List.range hy.blockCount).mapM (hy.loadLayer C ct)
  let perLayerTokenEmbd ← C.dequantize (← ct.tensor "per_layer_token_embd.weight")
  let perLayerModelProj ← C.qMatMul (← ct.tensor "per_layer_model_proj.weight")
  let perLayerProjNorm ← C.rmsNorm (← ct.tensor "per_layer_proj_norm.weight") hy.rmsNormEps
  let output ← C.qMatMul output
  pure
    { tokEmbeddings
      embeddingLength := hy.embeddingLength
      layers, norm, output, perLayerTokenEmbd, perLayerModelProj, perLayerProjNorm
      numLayers := hy.blockCount
      perLayerDim := ((ct.tensorInfos "per_layer_proj_norm.weight").bind List.head?).getD 256
      finalLogitSoftcap := hy.finalLogitSoftcap }

end

/-! ## What the loaded layers compute -/

section
variable {T V W R : Type} (C : GgufCandle T V W R)

namespace GgufLayer

variable (g : GgufLayer W R)

def project (w : W) (count : Nat) (x : T) : Result T :=
  match C.dims x with
  | [b, seq, _] => do C.heads (← C.matMul w x) b seq count g.headDim
  | _ => .error "unexpected number of dims"

def query (x : T) (pos : Nat) : Result T := do
  let q ← g.project C g.wq g.nHead x
  C.rope g.rope (← C.norm g.qNorm q) pos

def key (x : T) (pos : Nat) : Result T := do
  let k ← g.project C g.wk g.nKvHead x
  C.rope g.rope (← C.norm g.kNorm k) pos

def value (x : T) : Result T := do
  let v ← g.project C g.wv g.nKvHead x
  C.normalize v g.rmsNormEps

end GgufLayer

/-- What a layer computes but its queries, keys and values. -/
structure LayerKernels (T W R : Type) where
  mask : GgufLayer W R → (b seq pos : Nat) → Result T
  attend : GgufLayer W R → (q k v : T) → (mask : Option T) → Result T
  ffn : GgufLayer W R → T → Result T
  ple : GgufLayer W R → T → T → Result T
  scale : GgufLayer W R → T → Result T
  embed : GgufModel W R → T → Result T
  perLayerInputs : GgufModel W R → (x h : T) → Result T
  layerInput : T → Nat → Result T
  output : GgufModel W R → T → (seq : Nat) → Result T

variable (K : LayerKernels T W R)

def GgufLayer.weights (g : GgufLayer W R) : LayerWeights T where
  kvSourceLayer := g.kvSourceLayer
  mask := K.mask g
  attnNorm := C.norm g.attnNorm
  query := g.query C
  key := g.key C
  value := g.value C
  attend := K.attend g
  postAttnNorm := C.norm g.postAttnNorm
  ffn := K.ffn g
  ple := K.ple g
  scale := K.scale g

def GgufModel.weights (m : GgufModel W R) : ModelWeights T where
  embed := K.embed m
  perLayerInputs := K.perLayerInputs m
  layerInput := K.layerInput
  layers := m.layers.map (GgufLayer.weights C K)
  output := K.output m

end

end Llmctl.Native
