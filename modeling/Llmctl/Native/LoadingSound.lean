import Llmctl.Native.Checked
import Llmctl.Native.GgufSound

/-!
# When loading panics

A file's metadata and the shapes it declares say whether `from_gguf` can panic, whatever
reading its tensors comes to.
-/

namespace Llmctl.Native

open Outcome (ofResult)

/-! ## Files -/

/-- What a file declares, and how its metadata values are read. -/
structure FileTable (V R : Type) where
  metadata : String → Option V
  tensorInfos : String → Option (List Nat)
  toU32 : V → Result Nat
  toF32 : V → Result R
  ropeFreqGlobal : R
  ropeFreqSwa : R
  toU32_lt : ∀ {v n}, toU32 v = .ok n → n < 2 ^ 32
  dims_lt : ∀ {name dims}, tensorInfos name = some dims → ∀ d ∈ dims, d < 2 ^ 64

/-- `C` and `ct` are a way to read the file: a tensor that can be read is declared, and has
as many elements as its shape says. -/
structure FileTable.ReadBy {T V W R : Type} (t : FileTable V R) (C : CheckedCandle T V W R) (ct : Content V W) : Prop where
  metadata : ct.metadata = t.metadata
  tensorInfos : ct.tensorInfos = t.tensorInfos
  toU32 : C.toU32 = t.toU32
  toF32 : C.toF32 = t.toF32
  ropeFreqGlobal : C.defaultRopeFreqGlobal = t.ropeFreqGlobal
  ropeFreqSwa : C.defaultRopeFreqSwa = t.ropeFreqSwa
  declared : ∀ {name w}, ct.tensor name = .ok w → (t.tensorInfos name).isSome = true
  values_length : ∀ {name w dims vs}, ct.tensor name = .ok w → t.tensorInfos name = some dims → C.values w = .ok vs →
    vs.length = dims.prod

section
variable {V R : Type} (t : FileTable V R)

namespace FileTable

/-- Candle where each operation and each read succeeds. -/
def candle : CheckedCandle Unit V (List Nat) R where
  row _ := .ok ()
  dims _ := []
  narrow _ _ _ _ := .ok ()
  squeeze _ _ := .ok ()
  cat _ _ _ := .ok ()
  add _ _ := .ok ()
  toU32 := t.toU32
  toF32 := t.toF32
  defaultRopeFreqGlobal := t.ropeFreqGlobal
  defaultRopeFreqSwa := t.ropeFreqSwa
  unitScale := t.ropeFreqGlobal
  dequantize w := .ok w
  qMatMul w := .ok w
  rmsNorm w _ := .ok w
  scalar w := if w.prod = 0 then .error outOfBounds else .ok t.ropeFreqGlobal
  rotaryEmbedding _ _ := .ok []
  matMul _ _ := .ok ()
  norm _ _ := .ok ()
  heads _ _ _ _ _ := .ok ()
  rope _ _ _ := .ok ()
  normalize _ _ := .ok ()
  values w := .ok (List.replicate w.prod t.ropeFreqGlobal)
  scalar_eq w := by
    cases hw : w.prod with
    | zero => rfl
    | succ n => rfl

def content : Content V (List Nat) where
  metadata := t.metadata
  tensorInfos := t.tensorInfos
  tensor name :=
    match t.tensorInfos name with
    | some dims => .ok dims
    | none => .error s!"cannot find tensor info for {name}"

def hyperparameters : Result (Hyperparameters R) := t.content.hyperparameters t.candle.toGgufCandle

theorem readBy_candle : t.ReadBy t.candle t.content where
  metadata := rfl
  tensorInfos := rfl
  toU32 := rfl
  toF32 := rfl
  ropeFreqGlobal := rfl
  ropeFreqSwa := rfl
  declared {name w} h := by
    simp only [content] at h
    split at h
    · rename_i dims hdims
      rw [hdims]
      rfl
    · cases h
  values_length {name w dims vs} h hdims hvs := by
    simp only [content, hdims] at h
    cases h
    cases hvs
    exact List.length_replicate

variable {t} {T W : Type} {C : CheckedCandle T V W R} {ct : Content V W} (h : t.ReadBy C ct)
include h

theorem ReadBy.hyperparameters : ct.hyperparameters C.toGgufCandle = t.hyperparameters := by
  unfold FileTable.hyperparameters Content.hyperparameters Content.u32 Content.f32 Content.md
  rw [h.metadata, h.toU32, h.toF32, h.ropeFreqGlobal, h.ropeFreqSwa]
  rfl

omit h in
/-- Counts and lengths of the metadata are 32-bit numbers. -/
theorem hyperparameters_lt {hy : Hyperparameters R} (hhy : t.hyperparameters = .ok hy) :
    hy.headCount < 2 ^ 32 ∧ hy.keyLengthGlobal < 2 ^ 32 ∧ hy.slidingWindowSize < 2 ^ 32 := by
  have bounded {key : String} {n : Nat} (hkey : t.content.u32 t.candle.toGgufCandle key = .ok n) : n < 2 ^ 32 := by
    obtain ⟨v, -, hv⟩ := ok_of_bind hkey
    exact t.toU32_lt hv
  unfold FileTable.hyperparameters Content.hyperparameters at hhy
  obtain ⟨headCount, hheadCount, hhy⟩ := ok_of_bind hhy
  obtain ⟨_, -, hhy⟩ := ok_of_bind hhy
  obtain ⟨_, -, hhy⟩ := ok_of_bind hhy
  obtain ⟨_, -, hhy⟩ := ok_of_bind hhy
  obtain ⟨keyLength, hkeyLength, hhy⟩ := ok_of_bind hhy
  obtain ⟨_, -, hhy⟩ := ok_of_bind hhy
  obtain ⟨window, hwindow, hhy⟩ := ok_of_bind hhy
  cases hhy
  exact ⟨bounded hheadCount, bounded hkeyLength, bounded hwindow⟩

end FileTable

end

/-! ## Tensors of a layer -/

def layerTensorNames : List String :=
  ["attn_q", "attn_k", "attn_v", "attn_output", "attn_q_norm", "attn_k_norm", "attn_norm", "post_attention_norm", "ffn_norm",
    "post_ffw_norm", "ffn_gate", "ffn_up", "ffn_down", "inp_gate", "proj", "post_norm"]

section
variable {V R : Type} (t : FileTable V R)

def FileTable.Declares (name : String) : Prop := (t.tensorInfos name).isSome = true

def FileTable.LayerDeclared (n : Nat) : Prop := ∀ name ∈ layerTensorNames, t.Declares s!"blk.{n}.{name}.weight"

variable {t} {T W : Type} {C : CheckedCandle T V W R} {ct : Content V W} {hy : Hyperparameters R} {n : Nat}

theorem FileTable.ReadBy.declares (h : t.ReadBy C ct) {name : String} {f : W → Result W} {w : W}
    (hread : (ct.tensor name >>= f) = .ok w) : t.Declares name := by
  obtain ⟨w', hw', -⟩ := ok_of_bind hread
  exact h.declared hw'

theorem layerDeclared_of_tensors (h : t.ReadBy C ct) {ts : LayerTensors W} (hts : hy.layerTensors C ct n = .ok ts) :
    t.LayerDeclared n := by
  unfold Hyperparameters.layerTensors at hts
  dsimp only at hts
  obtain ⟨_, h₁, hts⟩ := ok_of_bind hts
  obtain ⟨_, h₂, hts⟩ := ok_of_bind hts
  obtain ⟨_, h₃, hts⟩ := ok_of_bind hts
  obtain ⟨_, h₄, hts⟩ := ok_of_bind hts
  obtain ⟨_, h₅, hts⟩ := ok_of_bind hts
  obtain ⟨_, h₆, hts⟩ := ok_of_bind hts
  obtain ⟨_, h₇, hts⟩ := ok_of_bind hts
  obtain ⟨_, h₈, hts⟩ := ok_of_bind hts
  obtain ⟨_, h₉, hts⟩ := ok_of_bind hts
  obtain ⟨_, h₁₀, hts⟩ := ok_of_bind hts
  obtain ⟨_, h₁₁, hts⟩ := ok_of_bind hts
  obtain ⟨_, h₁₂, hts⟩ := ok_of_bind hts
  obtain ⟨_, h₁₃, hts⟩ := ok_of_bind hts
  obtain ⟨_, h₁₄, hts⟩ := ok_of_bind hts
  obtain ⟨_, h₁₅, hts⟩ := ok_of_bind hts
  obtain ⟨_, h₁₆, -⟩ := ok_of_bind hts
  unfold FileTable.LayerDeclared layerTensorNames
  simp only [List.forall_mem_cons, List.not_mem_nil, false_imp_iff, implies_true, and_true]
  exact ⟨h.declares h₁, h.declares h₂, h.declares h₃, h.declares h₄, h.declares h₅, h.declares h₆, h.declares h₇, h.declares h₈,
    h.declares h₉, h.declares h₁₀, h.declares h₁₁, h.declares h₁₂, h.declares h₁₃, h.declares h₁₄, h.declares h₁₅, h.declares h₁₆⟩

theorem tensor_of_declares {name : String} (h : t.Declares name) : ∃ dims, t.content.tensor name = .ok dims := by
  obtain ⟨dims, hdims⟩ := Option.isSome_iff_exists.mp h
  exact ⟨dims, by simp only [FileTable.content, hdims]⟩

theorem exists_ok_bind {α β : Type} {r : Result α} {f : α → Result β} (hr : ∃ a, r = .ok a) (hf : ∀ a, ∃ b, f a = .ok b) :
    ∃ b, (r >>= f) = .ok b := by
  obtain ⟨a, rfl⟩ := hr
  exact hf a

theorem tensors_of_layerDeclared (h : t.LayerDeclared n) : ∃ ts, hy.layerTensors t.candle t.content n = .ok ts := by
  have read (name : String) (f : List Nat → Result (List Nat)) (hf : ∀ w, ∃ b, f w = .ok b) (hname : name ∈ layerTensorNames) :
      ∃ w, (t.content.tensor s!"blk.{n}.{name}.weight" >>= f) = .ok w := exists_ok_bind (tensor_of_declares (h name hname)) hf
  have matrix (name : String) (hname : name ∈ layerTensorNames) :=
    read name (fun w => t.candle.qMatMul w) (fun w => ⟨w, rfl⟩) hname
  have norm (name : String) (hname : name ∈ layerTensorNames) :=
    read name (fun w => t.candle.rmsNorm w hy.rmsNormEps) (fun w => ⟨w, rfl⟩) hname
  unfold Hyperparameters.layerTensors
  dsimp only
  refine exists_ok_bind (matrix _ (by decide)) fun wq => exists_ok_bind (matrix _ (by decide)) fun wk => ?_
  refine exists_ok_bind (matrix _ (by decide)) fun wv => exists_ok_bind (matrix _ (by decide)) fun wo => ?_
  refine exists_ok_bind (norm _ (by decide)) fun qNorm => exists_ok_bind (norm _ (by decide)) fun kNorm => ?_
  refine exists_ok_bind (norm _ (by decide)) fun attnNorm => exists_ok_bind (norm _ (by decide)) fun postAttnNorm => ?_
  refine exists_ok_bind (norm _ (by decide)) fun ffnNorm => exists_ok_bind (norm _ (by decide)) fun postFfnNorm => ?_
  refine exists_ok_bind (matrix _ (by decide)) fun gate => exists_ok_bind (matrix _ (by decide)) fun up => ?_
  refine exists_ok_bind (matrix _ (by decide)) fun down => exists_ok_bind (matrix _ (by decide)) fun inpGate => ?_
  exact exists_ok_bind (matrix _ (by decide)) fun proj => exists_ok_bind (norm _ (by decide)) fun postNorm => ⟨_, rfl⟩

/-! ## Loading a layer -/

variable (t) in
/-- The first dimension of the query weights. -/
def FileTable.queryRows (n : Nat) : Option Nat := (t.tensorInfos s!"blk.{n}.attn_q.weight").bind List.head?

variable (t hy) in
def FileTable.headDim (n : Nat) : Nat :=
  match t.queryRows n with
  | some rows => rows / hy.headCount
  | none => hy.keyLengthGlobal

variable (t) in
/-- The layer's output scale is declared without an element. -/
def FileTable.ScaleEmpty (n : Nat) : Prop := ∃ dims, t.tensorInfos s!"blk.{n}.layer_output_scale.weight" = some dims ∧ dims.prod = 0

variable (t hy) in
/-- The angles of a head need more bytes than a vector can have. -/
def FileTable.HeadTooLarge (n : Nat) : Prop := 2 ^ 63 ≤ 4 * ((t.headDim hy n + 1) / 2)

variable (t hy) in
/-- What makes the load of a layer panic. -/
def FileTable.LayerHazard (n : Nat) : Prop :=
  (hy.headCount = 0 ∧ t.queryRows n ≠ none) ∨ t.LayerDeclared n ∧ (t.ScaleEmpty n ∨ t.HeadTooLarge hy n)

theorem headDimOutcome_eq (h : t.ReadBy C ct) : hy.headDimOutcome ct n =
    match t.queryRows n with
    | some rows => Outcome.div rows hy.headCount
    | none => .ok hy.keyLengthGlobal := by
  have hrows : (ct.tensorInfos s!"blk.{n}.attn_q.weight").bind List.head? = t.queryRows n := by
    rw [h.tensorInfos]
    rfl
  exact congrArg (fun
    | some rows => Outcome.div rows hy.headCount
    | none => .ok hy.keyLengthGlobal) hrows

theorem headDimOutcome_panics (h : t.ReadBy C ct) :
    (hy.headDimOutcome ct n).Panics ↔ hy.headCount = 0 ∧ t.queryRows n ≠ none := by
  rw [headDimOutcome_eq h]
  cases t.queryRows n with
  | none => simp
  | some rows => simp [Outcome.div_panics]

theorem headDimOutcome_noError (h : t.ReadBy C ct) : (hy.headDimOutcome ct n).NoError := by
  rw [headDimOutcome_eq h]
  cases t.queryRows n with
  | none => trivial
  | some rows => exact Outcome.noError_div _ _

/-- The query dimension never overflows: it is no larger than the rows that are declared. -/
theorem headDimOutcome_ok (h : t.ReadBy C ct) (hhy : t.hyperparameters = .ok hy) {headDim : Nat}
    (hdim : hy.headDimOutcome ct n = .ok headDim) : headDim = t.headDim hy n ∧ hy.headCount * headDim < 2 ^ 64 := by
  obtain ⟨hcount, hlength, -⟩ := FileTable.hyperparameters_lt hhy
  rw [headDimOutcome_eq h] at hdim
  unfold FileTable.headDim
  cases hrows : t.queryRows n with
  | none =>
    rw [hrows] at hdim
    cases hdim
    refine ⟨rfl, ?_⟩
    calc hy.headCount * hy.keyLengthGlobal ≤ hy.headCount * 2 ^ 32 := Nat.mul_le_mul_left _ (Nat.le_of_lt hlength)
      _ < 2 ^ 32 * 2 ^ 32 := Nat.mul_lt_mul_of_pos_right hcount (by decide)
  | some rows =>
    rw [hrows] at hdim
    obtain ⟨-, rfl⟩ := Outcome.eq_ok_of_div hdim
    refine ⟨rfl, ?_⟩
    obtain ⟨dims, hdims, hhead⟩ := Option.bind_eq_some_iff.mp hrows
    have hrows := t.dims_lt hdims rows (List.mem_of_head? hhead)
    exact Nat.lt_of_le_of_lt (Nat.mul_div_le rows hy.headCount) hrows

theorem layerScalar_panics (h : t.ReadBy C ct) (hpanics : (Hyperparameters.layerScalar C ct n).Panics) : t.ScaleEmpty n := by
  unfold Hyperparameters.layerScalar at hpanics
  split at hpanics
  · rename_i vs hvs
    obtain ⟨w, hw, hvs⟩ := ok_of_bind hvs
    obtain ⟨dims, hdims⟩ := Option.isSome_iff_exists.mp (h.declared hw)
    rw [Outcome.index_panics, h.values_length hw hdims hvs] at hpanics
    exact ⟨dims, hdims, Nat.le_zero.mp hpanics⟩
  · cases hpanics

theorem layerScalar_noError : (Hyperparameters.layerScalar C ct n).NoError := by
  unfold Hyperparameters.layerScalar
  split
  · exact Outcome.noError_index _ _
  · trivial

theorem loadLayerOutcome_panics (h : t.ReadBy C ct) (hhy : t.hyperparameters = .ok hy)
    (hpanics : (hy.loadLayerOutcome C ct n).Panics) : t.LayerHazard hy n := by
  unfold Hyperparameters.loadLayerOutcome at hpanics
  rw [Outcome.panics_bind, headDimOutcome_panics h] at hpanics
  obtain hpanics | ⟨headDim, hdim, hpanics⟩ := hpanics
  · exact .inl hpanics
  obtain ⟨rfl, hlt⟩ := headDimOutcome_ok h hhy hdim
  rw [Outcome.mul_ok hlt, Outcome.ok_bind, Outcome.panics_bind] at hpanics
  obtain hpanics | ⟨ts, hts, hpanics⟩ := hpanics
  · exact absurd hpanics (Outcome.not_panics_ofResult _)
  refine .inr ⟨layerDeclared_of_tensors h (Outcome.ofResult_eq_ok.mp hts), ?_⟩
  rw [Outcome.panics_bind] at hpanics
  obtain hpanics | ⟨scalar, -, hpanics⟩ := hpanics
  · exact .inl (layerScalar_panics h hpanics)
  · right
    unfold FileTable.HeadTooLarge
    rw [Outcome.panics_bind] at hpanics
    obtain hpanics | ⟨rope, -, hpanics⟩ := hpanics
    · unfold Hyperparameters.rotaryEmbedding at hpanics
      split at hpanics
      · assumption
      · exact absurd hpanics (Outcome.not_panics_ofResult _)
    · cases hpanics

/-! ## The hazards are reached -/

theorem candle_loadLayer_noError (hdecl : t.LayerDeclared n) : (hy.loadLayerOutcome t.candle t.content n).NoError := by
  obtain ⟨ts, hts⟩ := @tensors_of_layerDeclared V R t hy n hdecl
  unfold Hyperparameters.loadLayerOutcome
  refine (headDimOutcome_noError t.readBy_candle).bind fun headDim _ => ?_
  refine (Outcome.noError_mul _ _).bind fun qDim _ => ?_
  rw [hts, Outcome.ofResult_ok, Outcome.ok_bind]
  refine layerScalar_noError.bind fun scalar _ => ?_
  unfold Hyperparameters.rotaryEmbedding
  split <;> trivial

theorem layerScalar_of_scaleEmpty (h : t.ScaleEmpty n) : (Hyperparameters.layerScalar t.candle t.content n).Panics := by
  obtain ⟨dims, hdims, hprod⟩ := h
  have hread : t.content.tensor s!"blk.{n}.layer_output_scale.weight" = .ok dims := by simp only [FileTable.content, hdims]
  unfold Hyperparameters.layerScalar
  rw [hread]
  change (Outcome.index (List.replicate dims.prod t.ropeFreqGlobal) 0).Panics
  rw [Outcome.index_panics, hprod]
  exact Nat.le_refl 0

theorem candle_loadLayer_panics (h : t.LayerHazard hy n) : (hy.loadLayerOutcome t.candle t.content n).Panics := by
  unfold Hyperparameters.loadLayerOutcome
  obtain hzero | ⟨hdecl, hhazard⟩ := h
  · rw [Outcome.panics_bind, headDimOutcome_panics t.readBy_candle]
    exact .inl hzero
  · obtain ⟨ts, hts⟩ := @tensors_of_layerDeclared V R t hy n hdecl
    refine Outcome.panics_of_noError (headDimOutcome_noError t.readBy_candle) fun headDim hdim => ?_
    refine Outcome.panics_of_noError (Outcome.noError_mul _ _) fun qDim _ => ?_
    rw [hts, Outcome.ofResult_ok, Outcome.ok_bind]
    obtain hscale | hlarge := hhazard
    · exact Outcome.panics_bind.mpr (.inl (layerScalar_of_scaleEmpty hscale))
    · refine Outcome.panics_of_noError layerScalar_noError fun scalar _ => ?_
      rw [Outcome.panics_bind]
      left
      have hdim : headDim = t.headDim hy n := by
        rw [headDimOutcome_eq t.readBy_candle] at hdim
        unfold FileTable.headDim
        cases hrows : t.queryRows n with
        | none =>
          rw [hrows] at hdim
          cases hdim
          rfl
        | some rows =>
          rw [hrows] at hdim
          exact (Outcome.eq_ok_of_div hdim).2
      unfold Hyperparameters.rotaryEmbedding
      rw [if_pos (hdim ▸ hlarge)]
      trivial

/-! ## Loading -/

variable (t) in
def FileTable.perLayerDim : Nat := ((t.tensorInfos "per_layer_proj_norm.weight").bind List.head?).getD 256

variable (t) in
/-- A file that no load panics on: where all that is read before is declared, no layer has a
hazard, and the per-layer embeddings have a dimension. -/
def FileTable.LoadSafe : Prop :=
  ∀ hy, t.hyperparameters = .ok hy → t.Declares "token_embd.weight" → t.Declares "output_norm.weight" →
    (∀ n < hy.blockCount, (∀ k < n, t.LayerDeclared k) → ¬ t.LayerHazard hy n) ∧
    ((∀ n < hy.blockCount, t.LayerDeclared n) → t.Declares "per_layer_token_embd.weight" → t.perLayerDim * hy.blockCount < 2 ^ 64)

theorem layerDeclared_of_load (h : t.ReadBy C ct) {g : GgufLayer W R} (hload : hy.loadLayerOutcome C ct n = .ok g) :
    t.LayerDeclared n := by
  unfold Hyperparameters.loadLayerOutcome at hload
  obtain ⟨_, -, hload⟩ := Outcome.bind_eq_ok hload
  obtain ⟨_, -, hload⟩ := Outcome.bind_eq_ok hload
  obtain ⟨ts, hts, -⟩ := Outcome.bind_eq_ok hload
  exact layerDeclared_of_tensors h (Outcome.ofResult_eq_ok.mp hts)

theorem range_eq_append {n k : Nat} {before after : List Nat} (h : List.range n = before ++ k :: after) :
    before = List.range k ∧ k < n := by
  have hlength := congrArg List.length h
  have hget : (before ++ k :: after)[before.length]? = some k := by simp
  rw [← h] at hget
  obtain ⟨hlt, heq⟩ := List.getElem?_eq_some_iff.mp hget
  rw [List.getElem_range] at heq
  rw [List.length_range] at hlt
  have htake := congrArg (List.take before.length) h
  rw [List.take_left, List.take_range, heq] at htake
  refine ⟨?_, by omega⟩
  rw [← htake, Nat.min_eq_left (by omega)]

theorem range_split {n k : Nat} (h : k < n) : ∃ after, List.range n = List.range k ++ k :: after := by
  have hlength : k < (List.range n).length := by rwa [List.length_range]
  have hsplit := List.take_append_drop k (List.range n)
  rw [List.drop_eq_getElem_cons hlength, List.getElem_range, List.take_range, Nat.min_eq_left (Nat.le_of_lt h)] at hsplit
  exact ⟨_, hsplit.symm⟩

theorem fromGgufOutcome_safe (h : t.ReadBy C ct) (hsafe : t.LoadSafe) : ¬ (fromGgufOutcome C ct).Panics := by
  intro hpanics
  have never {α β : Type} {r : Result α} {f : α → Outcome β} (hp : (ofResult r >>= f).Panics) : ∃ a, r = .ok a ∧ (f a).Panics := by
    obtain hp | ⟨a, ha, hp⟩ := Outcome.panics_bind.mp hp
    · exact absurd hp (Outcome.not_panics_ofResult r)
    · exact ⟨a, Outcome.ofResult_eq_ok.mp ha, hp⟩
  unfold fromGgufOutcome at hpanics
  obtain ⟨hy, hhy, hpanics⟩ := never hpanics
  rw [h.hyperparameters] at hhy
  obtain ⟨_, hembd, hpanics⟩ := never hpanics
  obtain ⟨_, hnorm, hpanics⟩ := never hpanics
  obtain ⟨_, -, hpanics⟩ := never hpanics
  obtain ⟨hlayers, hflat⟩ := hsafe hy hhy (h.declares hembd) (h.declares hnorm)
  obtain hpanics | ⟨layers, hload, hpanics⟩ := Outcome.panics_bind.mp hpanics
  · obtain ⟨before, n, after, hrange, hbefore, hn⟩ := Outcome.mapM_panics hpanics
    obtain ⟨rfl, hlt⟩ := range_eq_append hrange
    refine hlayers n hlt (fun k hk => ?_) (loadLayerOutcome_panics h hhy hn)
    obtain ⟨g, hg⟩ := hbefore k (List.mem_range.mpr hk)
    exact layerDeclared_of_load h hg
  · obtain ⟨_, hembd', hpanics⟩ := never hpanics
    have hall (n : Nat) (hn : n < hy.blockCount) : t.LayerDeclared n := by
      obtain ⟨g, hg⟩ := Outcome.eq_ok_of_mapM hload n (List.mem_range.mpr hn)
      exact layerDeclared_of_load h hg
    obtain hpanics | ⟨_, -, hpanics⟩ := Outcome.panics_bind.mp hpanics
    · have hlt := hflat hall (h.declares hembd')
      rw [Outcome.mul_panics, Content.perLayerDim, h.tensorInfos] at hpanics
      exact Nat.not_lt.mpr hpanics hlt
    · obtain ⟨_, -, hpanics⟩ := never hpanics
      obtain ⟨_, -, hpanics⟩ := never hpanics
      obtain ⟨_, -, hpanics⟩ := never hpanics
      cases hpanics

theorem exists_ok_of_noError {α : Type} {x : Outcome α} (hx : x.NoError) (hpanics : ¬ x.Panics) : ∃ a, x = .ok a := by
  cases x with
  | ok a => exact ⟨a, rfl⟩
  | err e => cases hx
  | panic p => exact absurd trivial hpanics

/-- A hazard is met by the load where all reads succeed that can. -/
theorem fromGgufOutcome_hazard (hsafe : ¬ t.LoadSafe) : (fromGgufOutcome t.candle t.content).Panics := by
  have reach {α β : Type} {r : Result α} {f : α → Outcome β} {a : α} (hr : r = .ok a) (hf : (f a).Panics) :
      (ofResult r >>= f).Panics := by
    rw [hr]
    exact hf
  unfold FileTable.LoadSafe at hsafe
  push Not at hsafe
  obtain ⟨hy, hhy, hembd, hnorm, hhazard⟩ := hsafe
  obtain ⟨embd, hembd⟩ := tensor_of_declares hembd
  obtain ⟨norm, hnorm⟩ := tensor_of_declares hnorm
  have houtput : ∃ w, ((t.content.tensor "output.weight").orElseLazy fun _ => t.content.tensor "token_embd.weight") = .ok w := by
    cases t.content.tensor "output.weight" with
    | ok w => exact ⟨w, rfl⟩
    | error e => exact ⟨embd, hembd⟩
  obtain ⟨output, houtput⟩ := houtput
  have hread : (t.content.tensor "token_embd.weight" >>= fun w => t.candle.dequantize w) = .ok embd := by
    rw [hembd]
    rfl
  have hread' : (t.content.tensor "output_norm.weight" >>= fun w => t.candle.rmsNorm w hy.rmsNormEps) = .ok norm := by
    rw [hnorm]
    rfl
  unfold fromGgufOutcome
  refine reach hhy (reach hread (reach hread' (reach houtput ?_)))
  by_cases hlayers : ∀ n < hy.blockCount, (∀ k < n, t.LayerDeclared k) → ¬ t.LayerHazard hy n
  · obtain ⟨hall, hembd', hflat⟩ := hhazard hlayers
    obtain ⟨embd', hembd'⟩ := tensor_of_declares hembd'
    have hload (n : Nat) (hn : n ∈ List.range hy.blockCount) : ∃ g, hy.loadLayerOutcome t.candle t.content n = .ok g := by
      rw [List.mem_range] at hn
      refine exists_ok_of_noError (candle_loadLayer_noError (hall n hn)) fun hpanics => ?_
      exact hlayers n hn (fun k hk => hall k (by omega)) (loadLayerOutcome_panics t.readBy_candle hhy hpanics)
    obtain ⟨layers, hlayers⟩ := Outcome.mapM_eq_ok hload
    have hread'' : (t.content.tensor "per_layer_token_embd.weight" >>= fun w => t.candle.dequantize w) = .ok embd' := by
      rw [hembd']
      rfl
    rw [hlayers, Outcome.ok_bind]
    refine reach hread'' (Outcome.panics_bind.mpr (.inl ?_))
    rw [Outcome.mul_panics]
    exact hflat
  · push Not at hlayers
    obtain ⟨n, hn, hbefore, hhazard⟩ := hlayers
    refine Outcome.panics_bind.mpr (.inl ?_)
    obtain ⟨after, hrange⟩ := range_split hn
    rw [hrange]
    refine Outcome.panics_of_mapM (fun k hk => ?_) (candle_loadLayer_panics hhazard)
    exact candle_loadLayer_noError (hbefore k (List.mem_range.mp hk))

/-- No way to read a file panics exactly when the file is safe to load. -/
theorem fromGgufOutcome_iff : (∀ (T W : Type) (C : CheckedCandle T V W R) (ct : Content V W), t.ReadBy C ct →
    ¬ (fromGgufOutcome C ct).Panics) ↔ t.LoadSafe := by
  constructor
  · intro h
    by_contra hsafe
    exact h _ _ _ _ t.readBy_candle (fromGgufOutcome_hazard hsafe)
  · exact fun hsafe T W C ct h => fromGgufOutcome_safe h hsafe

end

end Llmctl.Native
