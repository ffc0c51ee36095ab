import Llmctl.Native.Gguf
import Llmctl.Outcome

/-!
# Gemma 4 with its panics

`from_gguf` and `forward` once more, with each division, index, sum and product that can
panic. What the candle crates do comes to a value or an error.
-/

namespace Llmctl.Native

open Outcome (ofResult)

/-! ## Loading -/

structure CheckedCandle (T V W R : Type) extends GgufCandle T V W R where
  /-- The elements of a tensor as one vector. -/
  values : W → Result (List R)
  scalar_eq : ∀ w, scalar w = values w >>= fun
    | v :: _ => .ok v
    | [] => .error outOfBounds

structure LayerTensors (W : Type) where
  wq : W
  wk : W
  wv : W
  wo : W
  qNorm : W
  kNorm : W
  attnNorm : W
  postAttnNorm : W
  ffnNorm : W
  postFfnNorm : W
  mlp : GgufMlp W
  inpGate : W
  proj : W
  postNorm : W

section
variable {T V W R : Type} (C : CheckedCandle T V W R) (ct : Content V W)

namespace Hyperparameters

variable (hy : Hyperparameters R)

def headDimOutcome (n : Nat) : Outcome Nat :=
  match (ct.tensorInfos s!"blk.{n}.attn_q.weight").bind List.head? with
  | some qOut => Outcome.div qOut hy.headCount
  | none => .ok hy.keyLengthGlobal

def layerTensors (n : Nat) : Result (LayerTensors W) := do
  let matrix (name : String) : Result W := do C.qMatMul (← ct.tensor s!"blk.{n}.{name}.weight")
  let norm (name : String) : Result W := do C.rmsNorm (← ct.tensor s!"blk.{n}.{name}.weight") hy.rmsNormEps
  let wq ← matrix "attn_q"
  let wk ← matrix "attn_k"
  let wv ← matrix "attn_v"
  let wo ← matrix "attn_output"
  let qNorm ← norm "attn_q_norm"
  let kNorm ← norm "attn_k_norm"
  let attnNorm ← norm "attn_norm"
  let postAttnNorm ← norm "post_attention_norm"
  let ffnNorm ← norm "ffn_norm"
  let postFfnNorm ← norm "post_ffw_norm"
  let gate ← matrix "ffn_gate"
  let up ← matrix "ffn_up"
  let down ← matrix "ffn_down"
  let inpGate ← matrix "inp_gate"
  let proj ← matrix "proj"
  let postNorm ← norm "post_norm"
  pure
    { wq, wk, wv, wo, qNorm, kNorm, attnNorm, postAttnNorm, ffnNorm, postFfnNorm
      mlp := { gate, up, down }
      inpGate, proj, postNorm }

/-- The first element, where the tensor can be read. -/
def layerScalar (n : Nat) : Outcome R :=
  match ct.tensor s!"blk.{n}.layer_output_scale.weight" >>= C.values with
  | .ok values => Outcome.index values 0
  | .error _ => .ok C.unitScale

/-- The angles are collected in a vector of 4-byte numbers. -/
def rotaryEmbedding (headDim : Nat) : Outcome W :=
  if 2 ^ 63 ≤ 4 * ((headDim + 1) / 2) then .panic "capacity overflow"
  else ofResult (C.rotaryEmbedding headDim (if hy.isSwa headDim then hy.ropeFreqSwa else hy.ropeFreqGlobal))

def loadLayerOutcome (n : Nat) : Outcome (GgufLayer W R) := do
  let headDim ← hy.headDimOutcome ct n
  let qDim ← Outcome.mul hy.headCount headDim
  let t ← ofResult (hy.layerTensors C ct n)
  let layerScalar ← layerScalar C ct n
  let rope ← hy.rotaryEmbedding C headDim
  pure
    { wq := t.wq, wk := t.wk, wv := t.wv, wo := t.wo
      qNorm := t.qNorm, kNorm := t.kNorm, attnNorm := t.attnNorm
      postAttnNorm := t.postAttnNorm, ffnNorm := t.ffnNorm, postFfnNorm := t.postFfnNorm
      mlp := t.mlp, inpGate := t.inpGate, proj := t.proj, postNorm := t.postNorm
      layerScalar
      kvSourceLayer := hy.kvSourceLayer n headDim
      nHead := hy.headCount
      nKvHead := hy.headCountKv
      headDim, qDim
      rmsNormEps := hy.rmsNormEps
      slidingWindow := if hy.isSwa headDim then some hy.slidingWindowSize else none
      rope }

end Hyperparameters

def Content.perLayerDim : Nat := ((ct.tensorInfos "per_layer_proj_norm.weight").bind List.head?).getD 256

def fromGgufOutcome : Outcome (GgufModel W R) := do
  let hy ← ofResult (ct.hyperparameters C.toGgufCandle)
  let tokEmbeddings ← ofResult do C.dequantize (← ct.tensor "token_embd.weight")
  let norm ← ofResult do C.rmsNorm (← ct.tensor "output_norm.weight") hy.rmsNormEps
  let output ← ofResult ((ct.tensor "output.weight").orElseLazy fun _ => ct.tensor "token_embd.weight")
  let layers ← (List.range hy.blockCount).mapM (hy.loadLayerOutcome C ct)
  let perLayerTokenEmbd ← ofResult do C.dequantize (← ct.tensor "per_layer_token_embd.weight")
  let _perLayerFlatDim ← Outcome.mul ct.perLayerDim hy.blockCount
  let perLayerModelProj ← ofResult do C.qMatMul (← ct.tensor "per_layer_model_proj.weight")
  let perLayerProjNorm ← ofResult do C.rmsNorm (← ct.tensor "per_layer_proj_norm.weight") hy.rmsNormEps
  let output ← ofResult (C.qMatMul output)
  pure
    { tokEmbeddings
      embeddingLength := hy.embeddingLength
      layers, norm, output, perLayerTokenEmbd, perLayerModelProj, perLayerProjNorm
      numLayers := hy.blockCount
      perLayerDim := ct.perLayerDim
      finalLogitSoftcap := hy.finalLogitSoftcap }

end

/-! ## A forward pass -/

/-- What the layers compute with the numbers that the code hands to the candle crates. -/
structure CheckedKernels (T W R : Type) where
  embed : GgufModel W R → T → Result T
  /-- From the tokens, the hidden state and how many tokens there are. -/
  perLayerInputs : GgufModel W R → (x h : T) → (ids : Nat) → Result T
  layerInput : T → Nat → Result T
  /-- The cells of the mask as a tensor, behind the zeros of the earlier positions. -/
  maskRows : (cells : List (List Nat)) → (seq pos : Nat) → Result T
  expand : T → (b seq width : Nat) → Result T
  /-- Repeats the heads, masks, weighs the values and projects them. -/
  attend : GgufLayer W R → (q k v : T) → (groups : Nat) → (mask : Option T) → Result T
  ffn : GgufLayer W R → T → Result T
  ple : GgufLayer W R → T → T → Result T
  scale : GgufLayer W R → T → Result T
  outputAt : GgufModel W R → T → (last : Nat) → Result T

section
variable {T V W R : Type} (C : GgufCandle T V W R) (K : CheckedKernels T W R)

namespace GgufLayer

variable (g : GgufLayer W R)

def maskCell (i j : Nat) : Outcome Nat :=
  match g.slidingWindow with
  | none => pure (if i < j then 0 else 1)
  | some w =>
    if i < j then pure 0
    else do
      let last ← Outcome.add j w
      pure (if last < i then 0 else 1)

def maskCells (seq : Nat) : Outcome (List (List Nat)) :=
  (List.range seq).mapM fun i => (List.range seq).mapM (g.maskCell i)

def mask (b seq pos : Nat) : Outcome T := do
  let cells ← g.maskCells seq
  let rows ← ofResult (K.maskRows cells seq pos)
  let width ← Outcome.add seq pos
  ofResult (K.expand rows b seq width)

variable {n : Nat}

/-- The keys and values that layer `idx` attends to. -/
def keysValues (idx : Fin n) (x : T) (pos : Nat) (extKv : Option (T × T)) : Outcome.Call (KvCaches T n) (T × T) := fun caches =>
  match extKv with
  | some kv => (.ok kv, caches)
  | none =>
    let kv : Result (T × T) := do
      let k ← g.key C x pos
      let v ← g.value C x
      match caches idx with
      | none => pure (k, v)
      | some (kc, vc) =>
        if pos = 0 then pure (k, v)
        else do
          let k ← C.cat kc k 2
          let v ← C.cat vc v 2
          pure (k, v)
    match kv with
    | .ok kv => (.ok kv, Function.update caches idx (some kv))
    | .error e => (.err e, caches)

def forwardAttn (idx : Fin n) (x : T) (mask : Option T) (pos : Nat) (extKv : Option (T × T)) : Outcome.Call (KvCaches T n) T := do
  let q ← Outcome.Call.lift (ofResult (g.query C x pos))
  let kv ← g.keysValues C idx x pos extKv
  let groups ← Outcome.Call.lift (Outcome.div g.nHead g.nKvHead)
  Outcome.Call.lift (ofResult (K.attend g q kv.1 kv.2 groups mask))

def extKv (idx : Nat) : Outcome.Call (KvCaches T n) (Option (T × T)) := fun caches =>
  match g.kvSourceLayer with
  | none => (.ok none, caches)
  | some src =>
    if h : src < n then
      match caches ⟨src, h⟩ with
      | some kv => (.ok (some kv), caches)
      | none => (.err (notPopulated idx src), caches)
    else (.panic outOfBounds, caches)

end GgufLayer

namespace GgufModel

variable (m : GgufModel W R)

def layerOutcome (b seq pos : Nat) (inputs : T) (idx : Nat) (h : T) : Outcome.Call (KvCaches T m.layers.length) T :=
  if hidx : idx < m.layers.length then do
    let g := m.layers.get ⟨idx, hidx⟩
    let ext ← g.extKv idx
    let mask ← Outcome.Call.lift (if seq = 1 then pure none else some <$> g.mask K b seq pos)
    let normed ← Outcome.Call.lift (ofResult (C.norm g.attnNorm h))
    let attn ← g.forwardAttn C K ⟨idx, hidx⟩ normed mask pos ext
    Outcome.Call.lift (ofResult do
      let attn ← C.norm g.postAttnNorm attn
      let h ← C.add attn h
      let h ← C.add (← K.ffn g h) h
      let h ← C.add h (← K.ple g h (← K.layerInput inputs idx))
      K.scale g h)
  else Outcome.Call.lift (.panic outOfBounds)

def layersOutcome (b seq pos : Nat) (inputs : T) : List Nat → T → Outcome.Call (KvCaches T m.layers.length) T
  | [], h => pure h
  | idx :: layers, h => do
    let h ← m.layerOutcome C K b seq pos inputs idx h
    layersOutcome b seq pos inputs layers h

def forwardOutcome (x : T) (pos : Nat) : Outcome.Call (KvCaches T m.layers.length) T := do
  let dims ← Outcome.Call.lift (match C.dims x with
    | [b, seq] => .ok (b, seq)
    | _ => .err "unexpected number of dims")
  let h ← Outcome.Call.lift (ofResult (K.embed m x))
  let ids ← Outcome.Call.lift (Outcome.mul dims.1 dims.2)
  let inputs ← Outcome.Call.lift (ofResult (K.perLayerInputs m x h ids))
  let h ← m.layersOutcome C K dims.1 dims.2 pos inputs (List.range m.numLayers) h
  let last ← Outcome.Call.lift (Outcome.sub dims.2 1)
  Outcome.Call.lift (ofResult (K.outputAt m h last))

/-- The caches of a loaded model, after any calls. -/
inductive Reached : KvCaches T m.layers.length → Prop where
  | loaded : Reached fun _ => none
  | forward {caches : KvCaches T m.layers.length} (x : T) (pos : Nat) : Reached caches →
    Reached (m.forwardOutcome C K x pos caches).2
  | clear {caches : KvCaches T m.layers.length} : Reached caches → Reached fun _ => none

end GgufModel

end

end Llmctl.Native
