import Llmctl.Store
import Mathlib.Data.List.FinRange

/-!
# Key/value caches of the native models

`CandleModel` is what a decoder sees of a model of the candle crates. The Gemma 4
GGUF model is the repository's own: each of its layers caches the keys and values
it computed, or reads those of an earlier layer.
-/

namespace Llmctl.Native

structure Candle (T : Type) where
  /-- `Tensor::new` of token ids, reshaped to one row. -/
  row : List Nat → Result T
  dims : T → List Nat
  narrow : T → Nat → Nat → Nat → Result T
  squeeze : T → Nat → Result T
  cat : T → T → Nat → Result T
  add : T → T → Result T

structure CandleModel (T κ : Type) where
  loaded : κ
  forward : T → Nat → κ → Result T × κ
  clearKvCache : κ → κ

/-! ## Gemma 4 -/

/-- The weights of one layer, as what they compute. -/
structure LayerWeights (T : Type) where
  kvSourceLayer : Option Nat
  mask : (b seq pos : Nat) → Result T
  attnNorm : T → Result T
  query : T → (pos : Nat) → Result T
  key : T → (pos : Nat) → Result T
  value : T → Result T
  /-- Repeats the heads, masks, weighs the values and projects them. -/
  attend : (q k v : T) → (mask : Option T) → Result T
  postAttnNorm : T → Result T
  /-- The feed-forward block with its norms. -/
  ffn : T → Result T
  /-- The per-layer embedding block, from the hidden state and the layer's input. -/
  ple : T → T → Result T
  /-- Scales the layer's output. -/
  scale : T → Result T

structure ModelWeights (T : Type) where
  embed : T → Result T
  perLayerInputs : (x h : T) → Result T
  /-- The slice of the per-layer inputs that belongs to a layer. -/
  layerInput : T → Nat → Result T
  layers : List (LayerWeights T)
  /-- Norm, output projection and soft cap at the last position. -/
  output : T → (seq : Nat) → Result T

abbrev KvCaches (T : Type) (n : Nat) := Fin n → Option (T × T)

section
variable {T : Type} {n : Nat} (C : Candle T)

/-- The keys and values that layer `idx` attends to, and the caches after them. -/
def LayerWeights.keysValues (layer : LayerWeights T) (idx : Fin n) (x : T) (pos : Nat) (extKv : Option (T × T))
    (caches : KvCaches T n) : Result ((T × T) × KvCaches T n) :=
  match extKv with
  | some kv => .ok (kv, caches)
  | none => do
    let k ← layer.key x pos
    let v ← layer.value x
    let kv ← match caches idx with
      | none => pure (k, v)
      | some (kc, vc) =>
        if pos = 0 then pure (k, v)
        else do
          let k ← C.cat kc k 2
          let v ← C.cat vc v 2
          pure (k, v)
    pure (kv, Function.update caches idx (some kv))

/-- A failed step keeps the caches written before it. -/
def LayerWeights.forwardAttn (layer : LayerWeights T) (idx : Fin n) (x : T) (mask : Option T) (pos : Nat)
    (extKv : Option (T × T)) (caches : KvCaches T n) : Result T × KvCaches T n :=
  match layer.query x pos with
  | .error e => (.error e, caches)
  | .ok q =>
    match layer.keysValues C idx x pos extKv caches with
    | .error e => (.error e, caches)
    | .ok ((k, v), caches) => (layer.attend q k v mask, caches)

def notPopulated (idx src : Nat) : String := s!"layer {idx}: source layer {src} kv_cache not populated"

/-- An index out of bounds panics. -/
def outOfBounds : String := "index out of bounds"

def LayerWeights.extKv (layer : LayerWeights T) (idx : Fin n) (caches : KvCaches T n) : Result (Option (T × T)) :=
  match layer.kvSourceLayer with
  | none => .ok none
  | some src =>
    if h : src < n then
      match caches ⟨src, h⟩ with
      | some kv => .ok (some kv)
      | none => .error (notPopulated idx src)
    else .error outOfBounds

def LayerWeights.forward (layer : LayerWeights T) (idx : Fin n) (b seq pos : Nat) (pleIn : Result T) (ext : Option (T × T)) (h : T)
    (caches : KvCaches T n) : Result T × KvCaches T n :=
  let before : Result (Option T × T) := do
    let mask ← if seq = 1 then pure none else some <$> layer.mask b seq pos
    let normed ← layer.attnNorm h
    pure (mask, normed)
  match before with
  | .error e => (.error e, caches)
  | .ok (mask, normed) =>
    let (attn, caches) := layer.forwardAttn C idx normed mask pos ext caches
    let after : Result T := do
      let attn ← layer.postAttnNorm (← attn)
      let h ← C.add attn h
      let h ← C.add (← layer.ffn h) h
      let h ← C.add h (← layer.ple h (← pleIn))
      layer.scale h
    (after, caches)

namespace ModelWeights

abbrev Caches (w : ModelWeights T) := KvCaches T w.layers.length

def forwardLayers (w : ModelWeights T) (b seq pos : Nat) (inputs : T) :
    List (Fin w.layers.length) → T → w.Caches → Result T × w.Caches
  | [], h, caches => (.ok h, caches)
  | idx :: layers, h, caches =>
    let layer := w.layers.get idx
    match layer.extKv idx caches with
    | .error e => (.error e, caches)
    | .ok ext =>
      match layer.forward C idx b seq pos (w.layerInput inputs idx) ext h caches with
      | (.error e, caches) => (.error e, caches)
      | (.ok h, caches) => w.forwardLayers b seq pos inputs layers h caches

def forward (w : ModelWeights T) (x : T) (pos : Nat) (caches : w.Caches) : Result T × w.Caches :=
  let before : Result ((Nat × Nat) × (T × T)) := do
    let (b, seq) ← match C.dims x with
      | [b, seq] => pure (b, seq)
      | _ => .error "unexpected number of dims"
    let h ← w.embed x
    let inputs ← w.perLayerInputs x h
    pure ((b, seq), (h, inputs))
  match before with
  | .error e => (.error e, caches)
  | .ok ((b, seq), (h, inputs)) =>
    match w.forwardLayers C b seq pos inputs (List.finRange _) h caches with
    | (.error e, caches) => (.error e, caches)
    | (.ok h, caches) => (w.output h seq, caches)

def clearKvCache (w : ModelWeights T) (_ : w.Caches) : w.Caches := fun _ => none

def model (w : ModelWeights T) : CandleModel T w.Caches where
  loaded _ := none
  forward := w.forward C
  clearKvCache := w.clearKvCache

end ModelWeights

end

end Llmctl.Native
