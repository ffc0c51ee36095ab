import Llmctl.Native.LoadingSound

/-!
# When a forward pass panics

The numbers that a file declares, the sizes of the token batch and the position say whether
`forward` can panic, whatever the candle crates and the calls before have done.
-/

namespace Llmctl.Native

open Outcome (ofResult)

/-! ## Loaded models -/

section
variable {T V W R : Type} {C : CheckedCandle T V W R} {ct : Content V W} {hy : Hyperparameters R} {m : GgufModel W R}

theorem loadLayer_eq (n : Nat) : hy.loadLayer C.toGgufCandle ct n = (do
    let headDim ← hy.headDim ct n
    let t ← hy.layerTensors C ct n
    let rope ← C.rotaryEmbedding headDim (if hy.isSwa headDim then hy.ropeFreqSwa else hy.ropeFreqGlobal)
    pure
      { wq := t.wq, wk := t.wk, wv := t.wv, wo := t.wo
        qNorm := t.qNorm, kNorm := t.kNorm, attnNorm := t.attnNorm
        postAttnNorm := t.postAttnNorm, ffnNorm := t.ffnNorm, postFfnNorm := t.postFfnNorm
        mlp := t.mlp, inpGate := t.inpGate, proj := t.proj, postNorm := t.postNorm
        layerScalar := (ct.tensor s!"blk.{n}.layer_output_scale.weight" >>= C.scalar).toOption.getD C.unitScale
        kvSourceLayer := hy.kvSourceLayer n headDim
        nHead := hy.headCount
        nKvHead := hy.headCountKv
        headDim
        qDim := hy.headCount * headDim
        rmsNormEps := hy.rmsNormEps
        slidingWindow := if hy.isSwa headDim then some hy.slidingWindowSize else none
        rope }) := by
  unfold Hyperparameters.loadLayer Hyperparameters.layerTensors
  simp only [bind_assoc, pure_bind]

theorem layerScalar_ok {n : Nat} {scalar : R} (h : Hyperparameters.layerScalar C ct n = .ok scalar) :
    (ct.tensor s!"blk.{n}.layer_output_scale.weight" >>= C.scalar).toOption.getD C.unitScale = scalar := by
  unfold Hyperparameters.layerScalar at h
  rw [funext C.scalar_eq, ← bind_assoc]
  cases hvalues : ct.tensor s!"blk.{n}.layer_output_scale.weight" >>= C.values with
  | error e =>
    rw [hvalues] at h
    cases h
    rfl
  | ok values =>
    rw [hvalues] at h
    cases values with
    | nil => cases h
    | cons v vs =>
      cases h
      rfl

theorem headDimOutcome_refines (n : Nat) : (hy.headDimOutcome ct n).Refines (hy.headDim ct n) := by
  unfold Hyperparameters.headDimOutcome Hyperparameters.headDim
  cases (ct.tensorInfos s!"blk.{n}.attn_q.weight").bind List.head? with
  | none => rfl
  | some rows =>
    unfold Outcome.div
    dsimp only
    split
    · trivial
    · rfl

theorem loadLayerOutcome_refines (n : Nat) : (hy.loadLayerOutcome C ct n).Refines (hy.loadLayer C.toGgufCandle ct n) := by
  rw [loadLayer_eq]
  unfold Hyperparameters.loadLayerOutcome
  refine (headDimOutcome_refines n).bind fun headDim _ => ?_
  refine .check (Outcome.noError_mul _ _) fun qDim hqDim => ?_
  refine (Outcome.refines_ofResult _).bind fun ts _ => ?_
  refine .check layerScalar_noError fun scalar hscalar => ?_
  have hrope : (hy.rotaryEmbedding C headDim).Refines
      (C.rotaryEmbedding headDim (if hy.isSwa headDim then hy.ropeFreqSwa else hy.ropeFreqGlobal)) := by
    unfold Hyperparameters.rotaryEmbedding
    split
    · trivial
    · exact Outcome.refines_ofResult _
  refine hrope.bind fun rope _ => ?_
  rw [layerScalar_ok hscalar, Outcome.eq_ok_of_mul hqDim]
  rfl

/-- Where the load does not panic, it is the one without checks. -/
theorem fromGgufOutcome_refines : (fromGgufOutcome C ct).Refines (fromGguf C.toGgufCandle ct) := by
  have read {α β γ : Type} {r : Result α} {r' : α → Result β} {f : β → Outcome γ} {g : β → Result γ}
      (h : ∀ b, (f b).Refines (g b)) : (ofResult (r >>= r') >>= f).Refines (r >>= fun a => r' a >>= g) := by
    rw [← bind_assoc]
    exact (Outcome.refines_ofResult _).bind fun b _ => h b
  unfold fromGgufOutcome fromGguf
  refine (Outcome.refines_ofResult _).bind fun hy _ => ?_
  refine read fun tokEmbeddings => ?_
  refine read fun norm => ?_
  refine (Outcome.refines_ofResult _).bind fun output _ => ?_
  refine (Outcome.Refines.mapM fun n _ => loadLayerOutcome_refines n).bind fun layers _ => ?_
  refine read fun perLayerTokenEmbd => ?_
  refine .check (Outcome.noError_mul _ _) fun _ _ => ?_
  refine read fun perLayerModelProj => ?_
  refine read fun perLayerProjNorm => ?_
  exact (Outcome.refines_ofResult _).bind fun output _ => rfl

theorem fromGguf_of_outcome (h : fromGgufOutcome C ct = .ok m) : fromGguf C.toGgufCandle ct = .ok m := by
  have hrefines := @fromGgufOutcome_refines T V W R C ct
  rw [h] at hrefines
  exact hrefines

theorem fromGguf_numLayers {C : GgufCandle T V W R} (h : fromGguf C ct = .ok m) (hhy : ct.hyperparameters C = .ok hy) :
    m.numLayers = hy.blockCount := by
  unfold fromGguf at h
  obtain ⟨hy', hhy', h⟩ := ok_of_bind h
  cases hhy.symm.trans hhy'
  repeat obtain ⟨_, -, h⟩ := ok_of_bind h
  cases h
  rfl

theorem loadLayer_window {C : GgufCandle T V W R} {n : Nat} {g : GgufLayer W R} (h : hy.loadLayer C ct n = .ok g) :
    g.slidingWindow = if hy.isSwa g.headDim then some hy.slidingWindowSize else none := by
  unfold Hyperparameters.loadLayer at h
  obtain ⟨headDim, -, h⟩ := ok_of_bind h
  repeat obtain ⟨_, -, h⟩ := ok_of_bind h
  cases h
  rfl

/-- What a loaded model takes over from its file. -/
structure FileTable.Loads (t : FileTable V R) (hy : Hyperparameters R) (m : GgufModel W R) : Prop where
  numLayers : m.numLayers = hy.blockCount
  length : m.layers.length = hy.blockCount
  source : ∀ n : Fin m.layers.length, (m.layers.get n).kvSourceLayer = hy.kvSourceLayer n (t.headDim hy n)
  window : ∀ n : Fin m.layers.length, (m.layers.get n).slidingWindow =
    if hy.isSwa (t.headDim hy n) then some hy.slidingWindowSize else none
  heads : ∀ n : Fin m.layers.length, (m.layers.get n).nKvHead = hy.headCountKv

theorem headDim_ok {t : FileTable V R} (h : t.ReadBy C ct) {n headDim : Nat} (hdim : hy.headDim ct n = .ok headDim) :
    headDim = t.headDim hy n := by
  unfold Hyperparameters.headDim at hdim
  unfold FileTable.headDim FileTable.queryRows
  rw [h.tensorInfos] at hdim
  cases hrows : (t.tensorInfos s!"blk.{n}.attn_q.weight").bind List.head? with
  | none =>
    rw [hrows] at hdim
    cases hdim
    rfl
  | some rows =>
    rw [hrows] at hdim
    dsimp only at hdim
    split at hdim
    · cases hdim
    · cases hdim
      rfl

theorem loads_of_outcome {t : FileTable V R} (h : t.ReadBy C ct) (hhy : t.hyperparameters = .ok hy)
    (hload : fromGgufOutcome C ct = .ok m) : t.Loads hy m := by
  have hload := fromGguf_of_outcome hload
  rw [← h.hyperparameters] at hhy
  have hget (n : Fin m.layers.length) : m.layers[n.val]? = some (m.layers.get n) := List.getElem?_eq_getElem n.isLt
  have hdim (n : Fin m.layers.length) : (m.layers.get n).headDim = t.headDim hy n := headDim_ok h (layer_spec hload hhy (hget n)).2.1
  refine ⟨fromGguf_numLayers hload hhy, layers_length hload hhy, fun n => ?_, fun n => ?_, fun n => ?_⟩
  · rw [(layer_spec hload hhy (hget n)).2.2.1, hdim]
  · have hlayer := (List.forall₂_iff_get.mp (fromGguf_layers hload hhy)).2 n
      (by rw [List.length_range, ← layers_length hload hhy]; exact n.isLt) n.isLt
    rw [← hdim]
    exact loadLayer_window hlayer
  · exact (layer_spec hload hhy (hget n)).2.2.2.2

end

/-! ## Masks -/

section
variable {T V W R : Type} {C : GgufCandle T V W R} {K : CheckedKernels T W R} {g : GgufLayer W R}

theorem maskCell_noError (i j : Nat) : (g.maskCell i j).NoError := by
  unfold GgufLayer.maskCell
  split
  · trivial
  · split
    · trivial
    · exact (Outcome.noError_add _ _).bind fun last _ => trivial

theorem maskCell_panics {i j : Nat} :
    (g.maskCell i j).Panics ↔ ∃ w, g.slidingWindow = some w ∧ j ≤ i ∧ 2 ^ 64 ≤ j + w := by
  unfold GgufLayer.maskCell
  cases g.slidingWindow with
  | none => simp
  | some w =>
    by_cases hij : i < j
    · simp [hij]
    · simp only [if_neg hij, Outcome.panics_bind, Outcome.add_panics]
      simp
      omega

theorem maskCells_noError (seq : Nat) : (g.maskCells seq).NoError :=
  Outcome.noError_mapM fun i _ => Outcome.noError_mapM fun j _ => maskCell_noError i j

/-- The last cell of the last row adds the most. -/
theorem maskCells_panics {seq : Nat} (hseq : 0 < seq) :
    (g.maskCells seq).Panics ↔ ∃ w, g.slidingWindow = some w ∧ 2 ^ 64 ≤ seq - 1 + w := by
  unfold GgufLayer.maskCells
  constructor
  · intro h
    obtain ⟨before, i, after, hrange, -, hrow⟩ := Outcome.mapM_panics h
    obtain ⟨before', j, after', hrange', -, hcell⟩ := Outcome.mapM_panics hrow
    obtain ⟨w, hw, -, hlarge⟩ := maskCell_panics.mp hcell
    have hj := (range_eq_append hrange').2
    exact ⟨w, hw, by omega⟩
  · rintro ⟨w, hw, hlarge⟩
    have hlast : seq - 1 < seq := by omega
    obtain ⟨after, hrange⟩ := range_split hlast
    have hcell : (g.maskCell (seq - 1) (seq - 1)).Panics := maskCell_panics.mpr ⟨w, hw, Nat.le_refl _, hlarge⟩
    have hrow : ((List.range seq).mapM (g.maskCell (seq - 1))).Panics := by
      rw [hrange]
      exact Outcome.panics_of_mapM (fun j _ => maskCell_noError _ j) hcell
    rw [hrange]
    rw [hrange] at hrow
    exact Outcome.panics_of_mapM (fun i _ => Outcome.noError_mapM fun j _ => maskCell_noError i j) hrow

variable (g) in
/-- What makes the mask of a batch panic. -/
def GgufLayer.MaskHazard (seq pos : Nat) : Prop :=
  seq ≠ 1 ∧ (2 ^ 64 ≤ seq + pos ∨ ∃ w, g.slidingWindow = some w ∧ 2 ^ 64 ≤ seq - 1 + w)

theorem mask_panics {b seq pos : Nat} (hseq : 0 < seq) (h : (g.mask K b seq pos).Panics) :
    2 ^ 64 ≤ seq + pos ∨ ∃ w, g.slidingWindow = some w ∧ 2 ^ 64 ≤ seq - 1 + w := by
  unfold GgufLayer.mask at h
  obtain h | ⟨cells, -, h⟩ := Outcome.panics_bind.mp h
  · exact .inr ((maskCells_panics hseq).mp h)
  obtain h | ⟨rows, -, h⟩ := Outcome.panics_bind.mp h
  · exact absurd h (Outcome.not_panics_ofResult _)
  obtain h | ⟨width, -, h⟩ := Outcome.panics_bind.mp h
  · exact .inl ((Outcome.add_panics _ _).mp h)
  · exact absurd h (Outcome.not_panics_ofResult _)

end

/-! ## Caches -/

section
variable {T V W R : Type} {C : GgufCandle T V W R} {K : CheckedKernels T W R} {m : GgufModel W R}

variable (m) in
/-- Only layers with keys and values of their own have a cache. -/
def OwnOnly (caches : KvCaches T m.layers.length) : Prop :=
  ∀ idx, (caches idx).isSome = true → (m.layers.get idx).kvSourceLayer = none

theorem extKv_state {n : Nat} (g : GgufLayer W R) (idx : Nat) (caches : KvCaches T n) : (g.extKv idx caches).2 = caches := by
  unfold GgufLayer.extKv
  split
  · rfl
  · split
    · split <;> rfl
    · rfl

theorem extKv_none {n : Nat} {g : GgufLayer W R} {idx : Nat} {caches caches' : KvCaches T n}
    (h : g.extKv idx caches = (.ok none, caches')) : g.kvSourceLayer = none := by
  unfold GgufLayer.extKv at h
  split at h
  · assumption
  · split at h
    · split at h <;> cases h
    · cases h

theorem keysValues_ownOnly {idx : Fin m.layers.length} {x : T} {pos : Nat} {ext : Option (T × T)}
    {caches : KvCaches T m.layers.length} (h : OwnOnly m caches)
    (hext : ext = none → (m.layers.get idx).kvSourceLayer = none) :
    OwnOnly m ((m.layers.get idx).keysValues C idx x pos ext caches).2 := by
  unfold GgufLayer.keysValues
  cases ext with
  | some kv => exact h
  | none =>
    dsimp only
    split
    · intro other hother
      by_cases hidx : other = idx
      · rw [hidx]
        exact hext rfl
      · dsimp only at hother
        rw [Function.update_of_ne hidx] at hother
        exact h other hother
    · exact h

theorem forwardAttn_ownOnly {idx : Fin m.layers.length} {x : T} {mask : Option T} {pos : Nat} {ext : Option (T × T)}
    {caches : KvCaches T m.layers.length} (h : OwnOnly m caches)
    (hext : ext = none → (m.layers.get idx).kvSourceLayer = none) :
    OwnOnly m ((m.layers.get idx).forwardAttn C K idx x mask pos ext caches).2 := by
  unfold GgufLayer.forwardAttn
  refine Outcome.Call.lift_bind_state h fun q _ => ?_
  have hkv := @keysValues_ownOnly T V W R C m idx x pos ext _ h hext
  refine Outcome.Call.bind_state hkv fun kv caches' hkv' => ?_
  rw [hkv'] at hkv
  exact Outcome.Call.lift_bind_state hkv fun groups _ => hkv

theorem layerOutcome_ownOnly (b seq pos : Nat) (inputs : T) (idx : Nat) (x : T) {caches : KvCaches T m.layers.length}
    (h : OwnOnly m caches) : OwnOnly m (m.layerOutcome C K b seq pos inputs idx x caches).2 := by
  unfold GgufModel.layerOutcome
  split
  · rename_i hidx
    refine Outcome.Call.bind_state (by rwa [extKv_state]) fun ext caches' hext => ?_
    have hcaches : caches' = caches := by
      have hstate := extKv_state (m.layers.get ⟨idx, hidx⟩) idx caches
      rwa [hext] at hstate
    subst hcaches
    refine Outcome.Call.lift_bind_state h fun mask _ => ?_
    refine Outcome.Call.lift_bind_state h fun normed _ => ?_
    have hattn := @forwardAttn_ownOnly T V W R C K m ⟨idx, hidx⟩ normed mask pos ext _ h fun hnone => extKv_none (hnone ▸ hext)
    refine Outcome.Call.bind_state hattn fun attn caches' hattn' => ?_
    rw [hattn'] at hattn
    exact hattn
  · exact h

theorem layersOutcome_ownOnly (b seq pos : Nat) (inputs : T) (layers : List Nat) (x : T) {caches : KvCaches T m.layers.length}
    (h : OwnOnly m caches) : OwnOnly m (m.layersOutcome C K b seq pos inputs layers x caches).2 := by
  induction layers generalizing x caches with
  | nil => exact h
  | cons idx layers ih =>
    have hlayer := @layerOutcome_ownOnly T V W R C K m b seq pos inputs idx x _ h
    refine Outcome.Call.bind_state hlayer fun x' caches' hlayer' => ?_
    rw [hlayer'] at hlayer
    exact ih x' hlayer

theorem forwardOutcome_ownOnly (x : T) (pos : Nat) {caches : KvCaches T m.layers.length} (h : OwnOnly m caches) :
    OwnOnly m (m.forwardOutcome C K x pos caches).2 := by
  unfold GgufModel.forwardOutcome
  refine Outcome.Call.lift_bind_state h fun dims _ => ?_
  refine Outcome.Call.lift_bind_state h fun embedded _ => ?_
  refine Outcome.Call.lift_bind_state h fun ids _ => ?_
  refine Outcome.Call.lift_bind_state h fun inputs _ => ?_
  have hlayers := @layersOutcome_ownOnly T V W R C K m dims.1 dims.2 pos inputs (List.range m.numLayers) embedded _ h
  refine Outcome.Call.bind_state hlayers fun h' caches' hlayers' => ?_
  rw [hlayers'] at hlayers
  exact Outcome.Call.lift_bind_state hlayers fun last _ => hlayers

/-- In each state that calls lead to, only layers with keys and values of their own have a cache. -/
theorem reached_ownOnly {caches : KvCaches T m.layers.length} (h : m.Reached C K caches) : OwnOnly m caches := by
  induction h with
  | loaded =>
    intro idx hidx
    cases hidx
  | forward x pos _ ih => exact forwardOutcome_ownOnly x pos ih
  | clear _ _ =>
    intro idx hidx
    cases hidx

/-! ## Calls that are safe -/

/-- What a layer panics on once its keys and values are known. -/
def LayerHazard (g : GgufLayer W R) (seq pos : Nat) : Prop := g.MaskHazard seq pos ∨ g.nKvHead = 0

theorem forwardAttn_panics {n : Nat} {g : GgufLayer W R} {idx : Fin n} {x : T} {mask : Option T} {pos : Nat} {ext : Option (T × T)}
    {caches : KvCaches T n} (h : (g.forwardAttn C K idx x mask pos ext).PanicsAt caches) : g.nKvHead = 0 := by
  unfold GgufLayer.forwardAttn at h
  obtain h | ⟨q, -, h⟩ := Outcome.Call.panicsAt_lift_bind.mp h
  · exact absurd h (Outcome.not_panics_ofResult _)
  obtain h | ⟨kv, caches', -, h⟩ := Outcome.Call.panicsAt_bind.mp h
  · unfold Outcome.Call.PanicsAt GgufLayer.keysValues at h
    split at h
    · cases h
    · dsimp only at h
      split at h <;> cases h
  obtain h | ⟨groups, -, h⟩ := Outcome.Call.panicsAt_lift_bind.mp h
  · exact (Outcome.div_panics _ _).mp h
  · exact absurd h (Outcome.not_panics_ofResult _)

theorem layerOutcome_panics {b seq pos : Nat} {inputs : T} {idx : Fin m.layers.length} {x : T} {caches : KvCaches T m.layers.length}
    (hseq : 0 < seq) (h : (m.layerOutcome C K b seq pos inputs idx x).PanicsAt caches) :
    ((m.layers.get idx).extKv idx : Outcome.Call (KvCaches T m.layers.length) _).PanicsAt caches ∨
      (∃ ext, ((m.layers.get idx).extKv idx caches).1 = .ok ext) ∧ LayerHazard (m.layers.get idx) seq pos := by
  unfold GgufModel.layerOutcome at h
  rw [dif_pos idx.isLt] at h
  obtain h | ⟨ext, caches', hext, h⟩ := Outcome.Call.panicsAt_bind.mp h
  · exact .inl h
  refine .inr ⟨⟨ext, by rw [Fin.eta] at hext; rw [hext]⟩, ?_⟩
  obtain h | ⟨mask, -, h⟩ := Outcome.Call.panicsAt_lift_bind.mp h
  · left
    by_cases hone : seq = 1
    · rw [if_pos hone] at h
      cases h
    · rw [if_neg hone] at h
      obtain h | ⟨mask, -, h⟩ := Outcome.panics_bind.mp h
      · exact ⟨hone, mask_panics hseq h⟩
      · cases h
  obtain h | ⟨normed, -, h⟩ := Outcome.Call.panicsAt_lift_bind.mp h
  · exact absurd h (Outcome.not_panics_ofResult _)
  obtain h | ⟨attn, caches', -, h⟩ := Outcome.Call.panicsAt_bind.mp h
  · exact .inr (forwardAttn_panics h)
  · exact absurd h (Outcome.not_panics_ofResult _)

variable {U : Type} {t : FileTable U R} {hy : Hyperparameters R}

variable (t hy) in
/-- A call that no loaded model panics on. Where no layer owns keys and values, each call
with a batch of some size fails at the first layer. -/
def FileTable.CallSafe (b seq pos : Nat) : Prop :=
  b * seq < 2 ^ 64 ∧
    (0 < hy.nOwnKv → hy.headCountKv ≠ 0 ∧
      (seq = 1 ∨ seq + pos < 2 ^ 64 ∧
        ∀ n < hy.blockCount, hy.isSwa (t.headDim hy n) = true → seq - 1 + hy.slidingWindowSize < 2 ^ 64))

theorem Loads.source_lt (h : t.Loads hy m) {idx : Fin m.layers.length} {src : Nat}
    (hsrc : (m.layers.get idx).kvSourceLayer = some src) : hy.nOwnKv ≤ idx ∧ src = hy.nOwnKv - (if hy.isSwa (t.headDim hy idx) then 2 else 1) := by
  rw [h.source] at hsrc
  unfold Hyperparameters.kvSourceLayer at hsrc
  split at hsrc
  · cases hsrc
    exact ⟨‹_›, rfl⟩
  · cases hsrc

/-- The index of a source is in range. -/
theorem extKv_safe (h : t.Loads hy m) (idx : Fin m.layers.length) (caches : KvCaches T m.layers.length) :
    ¬ ((m.layers.get idx).extKv idx : Outcome.Call (KvCaches T m.layers.length) _).PanicsAt caches := by
  unfold Outcome.Call.PanicsAt GgufLayer.extKv
  split
  · exact id
  · rename_i src hsrc
    obtain ⟨hle, rfl⟩ := Loads.source_lt h hsrc
    have hidx := idx.isLt
    rw [dif_pos (by omega)]
    split <;> exact id

/-- Where no layer owns keys and values, none is populated. -/
theorem extKv_sourceless (h : t.Loads hy m) (hnone : hy.nOwnKv = 0) {idx : Fin m.layers.length} {caches : KvCaches T m.layers.length}
    (hown : OwnOnly m caches) (ext : Option (T × T)) : ((m.layers.get idx).extKv idx caches).1 ≠ .ok ext := by
  have hshares (n : Fin m.layers.length) : (m.layers.get n).kvSourceLayer ≠ none := by
    rw [h.source]
    unfold Hyperparameters.kvSourceLayer
    rw [if_pos (by omega)]
    exact Option.some_ne_none _
  unfold GgufLayer.extKv
  split
  · rename_i hsrc
    exact absurd hsrc (hshares idx)
  · split
    · rename_i hlt
      split
      · rename_i kv hkv
        exact absurd (hown _ (by rw [hkv]; rfl)) (hshares _)
      · exact nofun
    · exact nofun

theorem layerOutcome_safe (h : t.Loads hy m) {b seq pos : Nat} (hseq : 0 < seq) (hsafe : t.CallSafe hy b seq pos) {inputs : T}
    {idx : Nat} (hidx : idx < m.layers.length) {x : T} {caches : KvCaches T m.layers.length} (hown : OwnOnly m caches) :
    ¬ (m.layerOutcome C K b seq pos inputs idx x).PanicsAt caches := by
  intro hpanics
  obtain hext | ⟨⟨ext, hext⟩, hhazard⟩ := @layerOutcome_panics T V W R C K m b seq pos inputs ⟨idx, hidx⟩ x caches hseq hpanics
  · exact extKv_safe h _ caches hext
  have howns : 0 < hy.nOwnKv := Nat.pos_of_ne_zero fun hnone => extKv_sourceless h hnone hown ext hext
  obtain ⟨hheads, hmask⟩ := hsafe.2 howns
  obtain ⟨hne, hlarge⟩ | hzero := hhazard
  · obtain ⟨hpos, hwindow⟩ := hmask.resolve_left hne
    obtain hsum | ⟨w, hw, hcell⟩ := hlarge
    · omega
    · rw [h.window] at hw
      split at hw
      · rename_i hswa
        cases hw
        have hlt := hwindow idx (h.length ▸ hidx) hswa
        omega
      · cases hw
  · exact hheads (h.heads _ ▸ hzero)

theorem layersOutcome_safe (h : t.Loads hy m) {b seq pos : Nat} (hseq : 0 < seq) (hsafe : t.CallSafe hy b seq pos) {inputs : T}
    {layers : List Nat} (hlayers : ∀ idx ∈ layers, idx < m.layers.length) {x : T} {caches : KvCaches T m.layers.length}
    (hown : OwnOnly m caches) : ¬ (m.layersOutcome C K b seq pos inputs layers x).PanicsAt caches := by
  induction layers generalizing x caches with
  | nil => exact id
  | cons idx layers ih =>
    intro hpanics
    obtain hpanics | ⟨x', caches', hlayer, hpanics⟩ := Outcome.Call.panicsAt_bind.mp hpanics
    · exact layerOutcome_safe h hseq hsafe (hlayers idx List.mem_cons_self) hown hpanics
    · have hown' := @layerOutcome_ownOnly T V W R C K m b seq pos inputs idx x _ hown
      rw [hlayer] at hown'
      exact ih (fun i hi => hlayers i (List.mem_cons_of_mem idx hi)) hown' hpanics

theorem forwardOutcome_safe (h : t.Loads hy m) {b seq pos : Nat} (hseq : 0 < seq) (hsafe : t.CallSafe hy b seq pos) {x : T}
    (hx : C.dims x = [b, seq]) {caches : KvCaches T m.layers.length} (hown : OwnOnly m caches) :
    ¬ (m.forwardOutcome C K x pos).PanicsAt caches := by
  intro hpanics
  unfold GgufModel.forwardOutcome at hpanics
  rw [hx] at hpanics
  obtain hpanics | ⟨dims, hdims, hpanics⟩ := Outcome.Call.panicsAt_lift_bind.mp hpanics
  · cases hpanics
  cases hdims
  obtain hpanics | ⟨embedded, -, hpanics⟩ := Outcome.Call.panicsAt_lift_bind.mp hpanics
  · exact absurd hpanics (Outcome.not_panics_ofResult _)
  obtain hpanics | ⟨ids, -, hpanics⟩ := Outcome.Call.panicsAt_lift_bind.mp hpanics
  · exact Nat.not_lt.mpr ((Outcome.mul_panics _ _).mp hpanics) hsafe.1
  obtain hpanics | ⟨inputs, -, hpanics⟩ := Outcome.Call.panicsAt_lift_bind.mp hpanics
  · exact absurd hpanics (Outcome.not_panics_ofResult _)
  obtain hpanics | ⟨x', caches', -, hpanics⟩ := Outcome.Call.panicsAt_bind.mp hpanics
  · refine layersOutcome_safe h hseq hsafe (fun idx hidx => ?_) hown hpanics
    rw [List.mem_range, h.numLayers] at hidx
    rwa [h.length]
  obtain hpanics | ⟨last, -, hpanics⟩ := Outcome.Call.panicsAt_lift_bind.mp hpanics
  · exact Nat.not_lt.mpr hseq ((Outcome.sub_panics _ _).mp hpanics)
  · exact absurd hpanics (Outcome.not_panics_ofResult _)

end

/-! ## Calls that panic -/

section
variable {W R V : Type} {m : GgufModel W R} {t : FileTable V R} {hy : Hyperparameters R}

/-- Candle where each operation of a call succeeds. `true` is the token batch. -/
def callCandle (W : Type) {R : Type} (r : R) (b seq : Nat) : GgufCandle Bool Unit W R where
  row _ := .ok true
  dims
    | true => [b, seq]
    | false => [b, seq, 0]
  narrow _ _ _ _ := .ok false
  squeeze _ _ := .ok false
  cat _ _ _ := .ok false
  add _ _ := .ok false
  toU32 _ := .ok 0
  toF32 _ := .ok r
  defaultRopeFreqGlobal := r
  defaultRopeFreqSwa := r
  unitScale := r
  dequantize w := .ok w
  qMatMul w := .ok w
  rmsNorm w _ := .ok w
  scalar _ := .ok r
  rotaryEmbedding _ _ := .error "no table"
  matMul _ _ := .ok false
  norm _ _ := .ok false
  heads _ _ _ _ _ := .ok false
  rope _ _ _ := .ok false
  normalize _ _ := .ok false

def callKernels (W R : Type) : CheckedKernels Bool W R where
  embed _ _ := .ok false
  perLayerInputs _ _ _ _ := .ok false
  layerInput _ _ := .ok false
  maskRows _ _ _ := .ok false
  expand _ _ _ _ := .ok false
  attend _ _ _ _ _ _ := .ok false
  ffn _ _ := .ok false
  ple _ _ _ := .ok false
  scale _ _ := .ok false
  outputAt _ _ _ := .ok false

variable (m hy) in
/-- The layers in front of `k` that own keys and values have them. -/
def Populated (k : Nat) (caches : KvCaches Bool m.layers.length) : Prop :=
  ∀ idx, idx.val < k → idx.val < hy.nOwnKv → (caches idx).isSome = true

theorem extKv_populated (h : t.Loads hy m) (howns : 0 < hy.nOwnKv) {idx : Fin m.layers.length}
    {caches : KvCaches Bool m.layers.length} (hpop : Populated m hy idx caches) :
    ∃ ext, (m.layers.get idx).extKv idx caches = (.ok ext, caches) ∧ (idx.val < hy.nOwnKv → ext = none) := by
  unfold GgufLayer.extKv
  cases hsrc : (m.layers.get idx).kvSourceLayer with
  | none => exact ⟨none, rfl, fun _ => rfl⟩
  | some src =>
    obtain ⟨hle, rfl⟩ := Loads.source_lt h hsrc
    have hidx := idx.isLt
    have hlt : hy.nOwnKv - (if hy.isSwa (t.headDim hy idx) then 2 else 1) < hy.nOwnKv := by
      split <;> omega
    obtain ⟨kv, hkv⟩ := Option.isSome_iff_exists.mp (hpop ⟨_, by omega⟩ (Nat.lt_of_lt_of_le hlt hle) hlt)
    refine ⟨some kv, ?_, fun hown => absurd hle (by omega)⟩
    dsimp only
    rw [dif_pos (by omega), hkv]

variable (r : R) {b seq pos : Nat}

theorem keysValues_populated {idx : Fin m.layers.length} {caches : KvCaches Bool m.layers.length} {ext : Option (Bool × Bool)}
    (hpop : Populated m hy idx caches) (hext : idx.val < hy.nOwnKv → ext = none) :
    ∃ kv caches', (m.layers.get idx).keysValues (callCandle W r b seq) idx false pos ext caches = (.ok kv, caches') ∧
      Populated m hy (idx.val + 1) caches' := by
  cases ext with
  | some kv =>
    refine ⟨kv, caches, rfl, fun other hlt hown => ?_⟩
    have hne : other.val ≠ idx.val := fun heq => by
      have hnone := hext (heq ▸ hown)
      cases hnone
    exact hpop other (by omega) hown
  | none =>
    have hkv : ∃ kv, (m.layers.get idx).keysValues (callCandle W r b seq) idx false pos none caches =
        (.ok kv, Function.update caches idx (some kv)) := by
      cases hcache : caches idx with
      | none =>
        refine ⟨(false, false), ?_⟩
        unfold GgufLayer.keysValues
        rw [hcache]
        rfl
      | some kv =>
        refine ⟨(false, false), ?_⟩
        unfold GgufLayer.keysValues
        rw [hcache]
        by_cases hpos : pos = 0
        · subst hpos
          rfl
        · simp only [if_neg hpos]
          rfl
    obtain ⟨kv, hkv⟩ := hkv
    refine ⟨kv, _, hkv, fun other hlt hown => ?_⟩
    by_cases hidx : other = idx
    · rw [hidx, Function.update_self]
      rfl
    · rw [Function.update_of_ne hidx]
      have hne : other.val ≠ idx.val := fun heq => hidx (Fin.ext heq)
      exact hpop other (by omega) hown

theorem forwardAttn_reached {idx : Fin m.layers.length} {caches : KvCaches Bool m.layers.length} {ext : Option (Bool × Bool)}
    {mask : Option Bool} (hpop : Populated m hy idx caches) (hext : idx.val < hy.nOwnKv → ext = none) :
    (∃ caches', (m.layers.get idx).forwardAttn (callCandle W r b seq) (callKernels W R) idx false mask pos ext caches =
        (.ok false, caches') ∧ Populated m hy (idx.val + 1) caches' ∧ (m.layers.get idx).nKvHead ≠ 0) ∨
      ((m.layers.get idx).forwardAttn (callCandle W r b seq) (callKernels W R) idx false mask pos ext).PanicsAt caches := by
  obtain ⟨kv, caches', hkv, hpop'⟩ := @keysValues_populated W R m hy r b seq pos idx caches ext hpop hext
  have hattn : (m.layers.get idx).forwardAttn (callCandle W r b seq) (callKernels W R) idx false mask pos ext caches =
      (Outcome.Call.lift (Outcome.div (m.layers.get idx).nHead (m.layers.get idx).nKvHead) >>= fun _ =>
        Outcome.Call.lift (.ok false)) caches' := Outcome.Call.bind_of_ok hkv
  by_cases hzero : (m.layers.get idx).nKvHead = 0
  · right
    unfold Outcome.Call.PanicsAt
    rw [hattn]
    exact Outcome.Call.panicsAt_lift_bind.mpr (.inl ((Outcome.div_panics _ _).mpr hzero))
  · refine .inl ⟨caches', ?_, hpop', hzero⟩
    rw [hattn, Outcome.div_ok hzero]
    rfl

theorem mask_reached (g : GgufLayer W R) (hseq : 0 < seq) :
    ((if seq = 1 then pure none else some <$> g.mask (callKernels W R) b seq pos : Outcome (Option Bool)).Panics ∧
        g.MaskHazard seq pos) ∨
      ∃ mask, (if seq = 1 then pure none else some <$> g.mask (callKernels W R) b seq pos : Outcome (Option Bool)) = .ok mask ∧
        ¬ g.MaskHazard seq pos := by
  by_cases hone : seq = 1
  · right
    rw [if_pos hone]
    exact ⟨none, rfl, fun h => h.1 hone⟩
  · rw [if_neg hone]
    have hcells := @maskCells_noError W R g seq
    have hlarge := @maskCells_panics W R g seq hseq
    unfold GgufLayer.mask
    cases hc : g.maskCells seq with
    | err e =>
      rw [hc] at hcells
      cases hcells
    | panic p =>
      rw [hc] at hlarge
      exact .inl ⟨trivial, hone, .inr (hlarge.mp trivial)⟩
    | ok cells =>
      rw [hc] at hlarge
      by_cases hsum : seq + pos < 2 ^ 64
      · right
        rw [Outcome.add_ok hsum]
        refine ⟨some false, rfl, ?_⟩
        rintro ⟨-, hbad | hbad⟩
        · omega
        · cases hlarge.mpr hbad
      · left
        have hpanics : (Outcome.add seq pos).Panics := (Outcome.add_panics _ _).mpr (by omega)
        cases hadd : Outcome.add seq pos with
        | panic p => exact ⟨trivial, hone, .inl (by omega)⟩
        | ok n =>
          rw [hadd] at hpanics
          cases hpanics
        | err e =>
          rw [hadd] at hpanics
          cases hpanics

theorem layerOutcome_reached (h : t.Loads hy m) (howns : 0 < hy.nOwnKv) (hseq : 0 < seq) {idx : Fin m.layers.length}
    {caches : KvCaches Bool m.layers.length} (hpop : Populated m hy idx caches) :
    (m.layerOutcome (callCandle W r b seq) (callKernels W R) b seq pos false idx false).PanicsAt caches ∨
      ∃ caches', m.layerOutcome (callCandle W r b seq) (callKernels W R) b seq pos false idx false caches = (.ok false, caches') ∧
        Populated m hy (idx.val + 1) caches' ∧ ¬ LayerHazard (m.layers.get idx) seq pos := by
  obtain ⟨ext, hext, howned⟩ := extKv_populated h howns hpop
  have hlayer : m.layerOutcome (callCandle W r b seq) (callKernels W R) b seq pos false idx false caches =
      (Outcome.Call.lift (if seq = 1 then pure none else some <$> (m.layers.get idx).mask (callKernels W R) b seq pos) >>= fun mask =>
        (m.layers.get idx).forwardAttn (callCandle W r b seq) (callKernels W R) idx false mask pos ext >>= fun _ =>
          Outcome.Call.lift (.ok false)) caches := by
    unfold GgufModel.layerOutcome
    rw [dif_pos idx.isLt]
    exact Outcome.Call.bind_of_ok hext
  unfold Outcome.Call.PanicsAt
  rw [hlayer]
  obtain ⟨hmask, -⟩ | ⟨mask, hmask, hno⟩ := @mask_reached W R b seq pos (m.layers.get idx) hseq
  · exact .inl (Outcome.Call.panicsAt_lift_bind.mpr (.inl hmask))
  · rw [hmask, Outcome.Call.lift_bind]
    obtain ⟨caches', hattn, hpop', hheads⟩ | hattn :=
      @forwardAttn_reached W R m hy r b seq pos idx caches ext mask hpop howned
    · refine .inr ⟨caches', ?_, hpop', fun hhazard => hhazard.elim hno hheads⟩
      rw [Outcome.Call.bind_of_ok hattn]
      rfl
    · exact .inl (Outcome.Call.panicsAt_bind.mpr (.inl hattn))

theorem layersOutcome_reached (h : t.Loads hy m) (howns : 0 < hy.nOwnKv) (hseq : 0 < seq) {idx : Fin m.layers.length}
    (hhazard : LayerHazard (m.layers.get idx) seq pos) (count k : Nat) (hk : k + count = m.layers.length) (hidx : k ≤ idx)
    {caches : KvCaches Bool m.layers.length} (hpop : Populated m hy k caches) :
    (m.layersOutcome (callCandle W r b seq) (callKernels W R) b seq pos false (List.range' k count) false).PanicsAt caches := by
  induction count generalizing k caches with
  | zero =>
    have hlt := idx.isLt
    omega
  | succ count ih =>
    rw [List.range'_succ]
    obtain hpanics | ⟨caches', hlayer, hpop', hno⟩ :=
      @layerOutcome_reached W R V m t hy r b seq pos h howns hseq ⟨k, by omega⟩ caches hpop
    · exact Outcome.Call.panicsAt_bind.mpr (.inl hpanics)
    · refine Outcome.Call.panicsAt_bind.mpr (.inr ⟨false, caches', hlayer, ?_⟩)
      refine ih (k + 1) (by omega) ?_ hpop'
      have hne : k ≠ idx.val := by
        intro heq
        subst heq
        exact hno hhazard
      omega

omit r in
theorem exists_layerHazard (h : t.Loads hy m) (hids : b * seq < 2 ^ 64) (hsafe : ¬ t.CallSafe hy b seq pos) :
    0 < hy.nOwnKv ∧ ∃ idx, LayerHazard (m.layers.get idx) seq pos := by
  unfold FileTable.CallSafe at hsafe
  push Not at hsafe
  obtain ⟨howns, hhazard⟩ := hsafe hids
  refine ⟨howns, ?_⟩
  have hcount : hy.nOwnKv ≤ hy.blockCount := Nat.sub_le _ _
  have hlength := h.length
  by_cases hheads : hy.headCountKv = 0
  · refine ⟨⟨0, by omega⟩, .inr ?_⟩
    rw [h.heads, hheads]
  · obtain ⟨hone, hhazard⟩ := hhazard hheads
    by_cases hsum : seq + pos < 2 ^ 64
    · obtain ⟨n, hn, hswa, hlarge⟩ := hhazard hsum
      refine ⟨⟨n, by omega⟩, .inl ⟨hone, .inr ⟨hy.slidingWindowSize, ?_, hlarge⟩⟩⟩
      rw [h.window]
      exact if_pos hswa
    · exact ⟨⟨0, by omega⟩, .inl ⟨hone, .inl (by omega)⟩⟩

/-- An unsafe call panics on a model that was just loaded, where no operation fails. -/
theorem forwardOutcome_hazard (h : t.Loads hy m) (hseq : 0 < seq) (hsafe : ¬ t.CallSafe hy b seq pos) :
    (m.forwardOutcome (callCandle W r b seq) (callKernels W R) true pos).PanicsAt fun _ => none := by
  unfold GgufModel.forwardOutcome
  refine Outcome.Call.panicsAt_lift_bind.mpr (.inr ⟨(b, seq), rfl, ?_⟩)
  refine Outcome.Call.panicsAt_lift_bind.mpr (.inr ⟨false, rfl, ?_⟩)
  by_cases hids : b * seq < 2 ^ 64
  · obtain ⟨howns, idx, hhazard⟩ := exists_layerHazard h hids hsafe
    refine Outcome.Call.panicsAt_lift_bind.mpr (.inr ⟨b * seq, Outcome.mul_ok hids, ?_⟩)
    refine Outcome.Call.panicsAt_lift_bind.mpr (.inr ⟨false, rfl, ?_⟩)
    refine Outcome.Call.panicsAt_bind.mpr (.inl ?_)
    rw [List.range_eq_range']
    refine layersOutcome_reached r h howns hseq hhazard m.numLayers 0 ?_ (Nat.zero_le _) fun other hlt => absurd hlt (Nat.not_lt_zero _)
    rw [h.numLayers, h.length, Nat.zero_add]
  · refine Outcome.Call.panicsAt_lift_bind.mpr (.inl ((Outcome.mul_panics _ _).mpr ?_))
    dsimp only
    omega

end

/-! ## Loading and calling -/

section
variable {V R : Type}

/-- A file of one layer, with each tensor of four elements. -/
def oneLayerFile (headCount headCountKv : UInt32) : FileTable UInt32 Unit where
  metadata key :=
    if key = "gemma3.attention.head_count" then some headCount
    else if key = "gemma3.attention.head_count_kv" then some headCountKv
    else if key = "gemma3.attention.shared_kv_layers" then none
    else some 1
  tensorInfos _ := some [4]
  toU32 v := .ok v.toNat
  toF32 _ := .ok ()
  ropeFreqGlobal := ()
  ropeFreqSwa := ()
  toU32_lt {v n} h := by
    cases h
    exact v.toBitVec.isLt
  dims_lt {name dims} h d hd := by
    cases h
    rw [List.mem_singleton.mp hd]
    decide

def oneLayerHyper (headCount headCountKv : Nat) : Hyperparameters Unit where
  headCount := headCount
  headCountKv := headCountKv
  blockCount := 1
  embeddingLength := 1
  keyLengthGlobal := 1
  keyLengthSwa := 1
  rmsNormEps := ()
  slidingWindowSize := 1
  ropeFreqGlobal := ()
  ropeFreqSwa := ()
  finalLogitSoftcap := some ()
  sharedKvLayers := 0

theorem oneLayerFile_hyper : (oneLayerFile 2 1).hyperparameters = .ok (oneLayerHyper 2 1) := by
  rfl

theorem oneLayerFile_safe : (oneLayerFile 2 1).LoadSafe := by
  intro hy hhy _ _
  cases hhy.symm.trans oneLayerFile_hyper
  refine ⟨fun n _ _ hhazard => ?_, fun _ _ => by decide⟩
  obtain ⟨hzero, -⟩ | ⟨-, ⟨dims, hdims, hprod⟩ | hlarge⟩ := hhazard
  · cases hzero
  · cases hdims
    cases hprod
  · revert hlarge
    change ¬ 2 ^ 63 ≤ 4 * ((4 / 2 + 1) / 2)
    decide

end

end Llmctl.Native
