import Llmctl.Native.Gguf
import Mathlib.Data.List.Forall2

/-!
# Shared keys and values

A layer that shares keys and values must come after a layer that owns its own, with heads of
the same dimension. The loader takes the source from counts alone.
-/

namespace Llmctl.Native

/-! ## What a loaded model is made of -/

theorem forall₂_of_mapM {α β : Type} {f : α → Result β} : ∀ {l : List α} {l' : List β}, l.mapM f = .ok l' →
    List.Forall₂ (fun a b => f a = .ok b) l l'
  | [], _, h => by
    cases h
    exact .nil
  | a :: l, _, h => by
    rw [List.mapM_cons] at h
    obtain ⟨b, hb, h⟩ := ok_of_bind h
    obtain ⟨l', hl', h⟩ := ok_of_bind h
    cases h
    exact .cons hb (forall₂_of_mapM hl')

section
variable {T V W R : Type} {C : GgufCandle T V W R} {ct : Content V W} {hy : Hyperparameters R} {m : GgufModel W R}

theorem loadLayer_ok {n : Nat} {g : GgufLayer W R} (h : hy.loadLayer C ct n = .ok g) :
    hy.headDim ct n = .ok g.headDim ∧ g.kvSourceLayer = hy.kvSourceLayer n g.headDim ∧
      g.slidingWindow.isSome = hy.isSwa g.headDim ∧ g.nKvHead = hy.headCountKv := by
  unfold Hyperparameters.loadLayer at h
  obtain ⟨headDim, hdim, h⟩ := ok_of_bind h
  repeat obtain ⟨_, _, h⟩ := ok_of_bind h
  cases h
  refine ⟨hdim, rfl, ?_, rfl⟩
  dsimp only
  split
  · rename_i hswa
    exact hswa.symm
  · rename_i hswa
    exact (Bool.not_eq_true _ ▸ hswa).symm

theorem fromGguf_layers (h : fromGguf C ct = .ok m) (hhy : ct.hyperparameters C = .ok hy) :
    List.Forall₂ (fun n g => hy.loadLayer C ct n = .ok g) (List.range hy.blockCount) m.layers := by
  unfold fromGguf at h
  obtain ⟨hy', hhy', h⟩ := ok_of_bind h
  cases hhy.symm.trans hhy'
  obtain ⟨_, -, h⟩ := ok_of_bind h
  obtain ⟨_, -, h⟩ := ok_of_bind h
  obtain ⟨_, -, h⟩ := ok_of_bind h
  obtain ⟨_, -, h⟩ := ok_of_bind h
  obtain ⟨_, -, h⟩ := ok_of_bind h
  obtain ⟨layers, hlayers, h⟩ := ok_of_bind h
  repeat obtain ⟨_, -, h⟩ := ok_of_bind h
  cases h
  exact forall₂_of_mapM hlayers

theorem layers_length (h : fromGguf C ct = .ok m) (hhy : ct.hyperparameters C = .ok hy) : m.layers.length = hy.blockCount := by
  rw [← (fromGguf_layers h hhy).length_eq, List.length_range]

theorem layer_spec (h : fromGguf C ct = .ok m) (hhy : ct.hyperparameters C = .ok hy) {n : Nat} {g : GgufLayer W R}
    (hg : m.layers[n]? = some g) : n < hy.blockCount ∧ hy.headDim ct n = .ok g.headDim ∧
      g.kvSourceLayer = hy.kvSourceLayer n g.headDim ∧ g.slidingWindow.isSome = hy.isSwa g.headDim ∧
        g.nKvHead = hy.headCountKv := by
  obtain ⟨hn, rfl⟩ := List.getElem?_eq_some_iff.mp hg
  have hlength := layers_length h hhy
  have hload := (List.forall₂_iff_get.mp (fromGguf_layers h hhy)).2 n (by rw [List.length_range]; omega) hn
  rw [List.get_eq_getElem, List.getElem_range] at hload
  exact ⟨by omega, loadLayer_ok hload⟩

theorem exists_layer (h : fromGguf C ct = .ok m) (hhy : ct.hyperparameters C = .ok hy) {n : Nat} (hn : n < hy.blockCount) :
    ∃ g, m.layers[n]? = some g :=
  ⟨_, List.getElem?_eq_getElem (by rw [layers_length h hhy]; exact hn)⟩

/-! ## Sources -/

/-- Each source is an earlier layer of the same kind, with keys and values of its own. -/
def Founded (m : GgufModel W R) : Prop :=
  ∀ (n : Nat) (g : GgufLayer W R) (s : Nat), m.layers[n]? = some g → g.kvSourceLayer = some s →
    s < n ∧ ∃ source, m.layers[s]? = some source ∧ source.kvSourceLayer = none ∧ source.headDim = g.headDim ∧
      source.slidingWindow.isSome = g.slidingWindow.isSome

variable (ct hy) in
/-- No layer shares, or some layer owns and each source has the head dimension of the layers that share it. -/
def SourcesFit : Prop :=
  hy.blockCount ≤ hy.nOwnKv ∨ 0 < hy.nOwnKv ∧ ∀ n headDim, hy.nOwnKv ≤ n → n < hy.blockCount → hy.headDim ct n = .ok headDim →
    hy.headDim ct (hy.nOwnKv - if hy.isSwa headDim then 2 else 1) = .ok headDim

theorem founded_iff (h : fromGguf C ct = .ok m) (hhy : ct.hyperparameters C = .ok hy) : Founded m ↔ SourcesFit ct hy := by
  have hown (s : Nat) (dim : Nat) (hs : s < hy.nOwnKv) : hy.kvSourceLayer s dim = none := if_neg (by omega)
  have hshared (n dim : Nat) (hn : hy.nOwnKv ≤ n) :
      hy.kvSourceLayer n dim = some (hy.nOwnKv - if hy.isSwa dim then 2 else 1) := if_pos hn
  constructor
  · intro hfounded
    by_cases hall : hy.blockCount ≤ hy.nOwnKv
    · exact .inl hall
    · refine .inr ⟨?_, fun n headDim hn hlt hdim => ?_⟩
      · obtain ⟨g, hg⟩ := exists_layer h hhy (n := hy.nOwnKv) (by omega)
        obtain ⟨-, -, hsource, -⟩ := layer_spec h hhy hg
        rw [hshared _ _ le_rfl] at hsource
        have hs := (hfounded _ g _ hg hsource).1
        omega
      · obtain ⟨g, hg⟩ := exists_layer h hhy hlt
        obtain ⟨-, hgdim, hsource, -⟩ := layer_spec h hhy hg
        cases hdim.symm.trans hgdim
        rw [hshared _ _ hn] at hsource
        obtain ⟨-, source, hget, -, hsame, -⟩ := hfounded n g _ hg hsource
        rw [(layer_spec h hhy hget).2.1, hsame]
  · rintro hfit n g s hg hs
    obtain ⟨hlt, hdim, hsource, hwindow, -⟩ := layer_spec h hhy hg
    rw [hsource] at hs
    by_cases hn : hy.nOwnKv ≤ n
    · obtain ⟨hpos, hdims⟩ := hfit.resolve_left (by omega)
      rw [hshared _ _ hn, Option.some.injEq] at hs
      have hdims := hdims n _ hn hlt hdim
      rw [hs] at hdims
      have hbelow : s < hy.nOwnKv := by
        rw [← hs]
        split <;> omega
      obtain ⟨source, hget⟩ := exists_layer h hhy (n := s) (by omega)
      obtain ⟨-, hsdim, hsource', hwindow', -⟩ := layer_spec h hhy hget
      have hsame : source.headDim = g.headDim := Except.ok.inj (hsdim.symm.trans hdims)
      refine ⟨by omega, source, hget, ?_, hsame, ?_⟩
      · rw [hsource', hown _ _ hbelow]
      · rw [hwindow', hwindow, hsame]
    · rw [hown _ _ (by omega)] at hs
      cases hs

end

/-! ## Shapes -/

/-- The shapes that the candle crates document for their operations. -/
structure Shapes {T V W R : Type} (C : GgufCandle T V W R) : Prop where
  heads : ∀ {x y : T} {b seq count headDim : Nat}, C.heads x b seq count headDim = .ok y → C.dims y = [b, count, seq, headDim]
  norm : ∀ {w : W} {x y : T}, C.norm w x = .ok y → C.dims y = C.dims x
  rope : ∀ {w : W} {x y : T} {pos : Nat}, C.rope w x pos = .ok y → C.dims y = C.dims x
  normalize : ∀ {x y : T} {eps : R}, C.normalize x eps = .ok y → C.dims y = C.dims x
  cat : ∀ {x y z : T} {b₁ b₂ count₁ count₂ seq₁ seq₂ dim₁ dim₂ : Nat}, C.cat x y 2 = .ok z →
    C.dims x = [b₁, count₁, seq₁, dim₁] → C.dims y = [b₂, count₂, seq₂, dim₂] → C.dims z = [b₁, count₁, seq₁ + seq₂, dim₁]

section
variable {T V W R : Type} (C : GgufCandle T V W R)

/-- Keys and values of one shape, with the heads of the layer. -/
def Fits (g : GgufLayer W R) (kv : T × T) : Prop :=
  ∃ b seq, C.dims kv.1 = [b, g.nKvHead, seq, g.headDim] ∧ C.dims kv.2 = [b, g.nKvHead, seq, g.headDim]

variable {C} (hC : Shapes C) {g : GgufLayer W R}
include hC

theorem key_dims {x k : T} {pos : Nat} (h : g.key C x pos = .ok k) :
    ∃ b seq e, C.dims x = [b, seq, e] ∧ C.dims k = [b, g.nKvHead, seq, g.headDim] := by
  unfold GgufLayer.key GgufLayer.project at h
  obtain ⟨projected, hprojected, h⟩ := ok_of_bind h
  obtain ⟨normed, hnormed, h⟩ := ok_of_bind h
  split at hprojected
  · rename_i b seq e hx
    obtain ⟨_, -, hprojected⟩ := ok_of_bind hprojected
    exact ⟨b, seq, e, hx, by rw [hC.rope h, hC.norm hnormed, hC.heads hprojected]⟩
  · cases hprojected

theorem value_dims {x v : T} (h : g.value C x = .ok v) :
    ∃ b seq e, C.dims x = [b, seq, e] ∧ C.dims v = [b, g.nKvHead, seq, g.headDim] := by
  unfold GgufLayer.value GgufLayer.project at h
  obtain ⟨projected, hprojected, h⟩ := ok_of_bind h
  split at hprojected
  · rename_i b seq e hx
    obtain ⟨_, -, hprojected⟩ := ok_of_bind hprojected
    exact ⟨b, seq, e, hx, by rw [hC.normalize h, hC.heads hprojected]⟩
  · cases hprojected

theorem fits_of_projected {x k v : T} {pos : Nat} (hk : g.key C x pos = .ok k) (hv : g.value C x = .ok v) : Fits C g (k, v) := by
  obtain ⟨b, seq, e, hx, hk⟩ := key_dims hC hk
  obtain ⟨b', seq', e', hx', hv⟩ := value_dims hC hv
  cases hx.symm.trans hx'
  exact ⟨b, seq, hk, hv⟩

theorem fits_of_cat {kv kv' : T × T} {k v : T} (h : Fits C g kv) (h' : Fits C g kv') (hk : C.cat kv.1 kv'.1 2 = .ok k)
    (hv : C.cat kv.2 kv'.2 2 = .ok v) : Fits C g (k, v) := by
  obtain ⟨b, seq, hk₁, hv₁⟩ := h
  obtain ⟨b', seq', hk₂, hv₂⟩ := h'
  exact ⟨b, seq + seq', hC.cat hk hk₁ hk₂, hC.cat hv hv₁ hv₂⟩

end

/-! ## The forward pass -/

section
variable {T V W R : Type} (C : GgufCandle T V W R) (K : LayerKernels T W R) (m : GgufModel W R)

def CachesFit (caches : (m.weights C K).Caches) : Prop :=
  ∀ idx kv g, m.layers[idx.val]? = some g → caches idx = some kv → Fits C g kv

/-- Layers after the first caches were filled keep them. -/
def Grows {n : Nat} (caches caches' : KvCaches T n) : Prop := ∀ idx, (caches idx).isSome = true → (caches' idx).isSome = true

/-- From here on no layer fails for the want of keys and values, or attends to those of other heads. -/
def ReadsFit (b seq pos : Nat) (inputs : T) : List (Fin (m.weights C K).layers.length) → T → (m.weights C K).Caches → Prop
  | [], _, _ => True
  | idx :: layers, h, caches =>
    let layer := (m.weights C K).layers.get idx
    ∃ ext, layer.extKv idx caches = .ok ext ∧
      (∀ g x kv caches', m.layers[idx.val]? = some g → layer.keysValues C.toCandle idx x pos ext caches = .ok (kv, caches') →
        Fits C g kv) ∧
      ∀ h' caches', layer.forward C.toCandle idx b seq pos ((m.weights C K).layerInput inputs idx) ext h caches = (.ok h', caches') →
        ReadsFit b seq pos inputs layers h' caches'

/-- The caches after any calls. -/
inductive Called : (m.weights C K).Caches → Prop where
  | loaded : Called fun _ => none
  | forward {caches : (m.weights C K).Caches} (x : T) (pos : Nat) (h : Called caches) :
    Called ((m.weights C K).forward C.toCandle x pos caches).2
  | clear {caches : (m.weights C K).Caches} (h : Called caches) : Called ((m.weights C K).clearKvCache caches)

variable {C K m} {n : Nat} {idx : Fin (m.weights C K).layers.length}

theorem Grows.refl (caches : KvCaches T n) : Grows caches caches := fun _ h => h

theorem grows_update (caches : KvCaches T n) (idx : Fin n) (kv : T × T) : Grows caches (Function.update caches idx (some kv)) := by
  intro j hj
  by_cases he : j = idx
  · rw [he, Function.update_self]
    rfl
  · rwa [Function.update_of_ne he]

theorem CachesFit.update {caches : (m.weights C K).Caches} (h : CachesFit C K m caches) {g : GgufLayer W R}
    (hg : m.layers[idx.val]? = some g) {kv : T × T} (hkv : Fits C g kv) :
    CachesFit C K m (Function.update caches idx (some kv)) := by
  intro j kv' g' hg' hj
  by_cases he : j = idx
  · rw [he, Function.update_self] at hj
    rw [he, hg] at hg'
    cases hj
    cases hg'
    exact hkv
  · rw [Function.update_of_ne he] at hj
    exact h j kv' g' hg' hj

/-- What a layer attends to, and the caches after it. -/
theorem keysValues_fits (hC : Shapes C) {g : GgufLayer W R} (hg : m.layers[idx.val]? = some g) {x : T} {pos : Nat}
    {ext : Option (T × T)} (hext : ∀ kv, ext = some kv → Fits C g kv) {caches caches' : (m.weights C K).Caches}
    (hfit : CachesFit C K m caches) {kv : T × T}
    (h : (g.weights C K).keysValues C.toCandle idx x pos ext caches = .ok (kv, caches')) :
    Fits C g kv ∧ CachesFit C K m caches' ∧ Grows caches caches' ∧ (ext = none → (caches' idx).isSome = true) := by
  unfold LayerWeights.keysValues at h
  cases ext with
  | some kv' =>
    cases h
    exact ⟨hext _ rfl, hfit, .refl _, nofun⟩
  | none =>
    obtain ⟨k, hk, h⟩ := ok_of_bind h
    obtain ⟨v, hv, h⟩ := ok_of_bind h
    have hnew : Fits C g (k, v) := fits_of_projected hC hk hv
    have hstored {stored : T × T} (hstored : Fits C g stored)
        (h : (pure (stored, Function.update caches idx (some stored)) : Result _) = .ok (kv, caches')) :
        Fits C g kv ∧ CachesFit C K m caches' ∧ Grows caches caches' ∧ ((none : Option (T × T)) = none → (caches' idx).isSome = true) := by
      cases h
      exact ⟨hstored, hfit.update hg hstored, grows_update caches idx _, fun _ => by rw [Function.update_self]; rfl⟩
    simp only at h
    split at h
    · exact hstored hnew h
    · rename_i kc vc hcache
      split at h
      · exact hstored hnew h
      · obtain ⟨k', hk', h⟩ := ok_of_bind h
        obtain ⟨v', hv', h⟩ := ok_of_bind h
        exact hstored (fits_of_cat hC (hfit idx (kc, vc) g hg hcache) hnew hk' hv') h

theorem forward_fits (hC : Shapes C) {g : GgufLayer W R} (hg : m.layers[idx.val]? = some g) {b seq pos : Nat} {pleIn : Result T}
    {ext : Option (T × T)} (hext : ∀ kv, ext = some kv → Fits C g kv) {h : T} {caches : (m.weights C K).Caches}
    (hfit : CachesFit C K m caches) {r : Result T} {caches' : (m.weights C K).Caches}
    (hr : (g.weights C K).forward C.toCandle idx b seq pos pleIn ext h caches = (r, caches')) :
    CachesFit C K m caches' ∧ Grows caches caches' ∧ ∀ h', r = .ok h' → ext = none → (caches' idx).isSome = true := by
  unfold LayerWeights.forward at hr
  dsimp only at hr
  split at hr
  · cases hr
    exact ⟨hfit, .refl _, nofun⟩
  · rename_i mask normed _
    unfold LayerWeights.forwardAttn at hr
    cases hq : (g.weights C K).query normed pos with
    | error e =>
      rw [hq] at hr
      cases hr
      exact ⟨hfit, .refl _, nofun⟩
    | ok q =>
      rw [hq] at hr
      cases hkv : (g.weights C K).keysValues C.toCandle idx normed pos ext caches with
      | error e =>
        rw [hkv] at hr
        cases hr
        exact ⟨hfit, .refl _, nofun⟩
      | ok read =>
        obtain ⟨kv, caches₁⟩ := read
        rw [hkv] at hr
        obtain ⟨-, hfit', hgrows, hown⟩ := keysValues_fits hC hg hext hfit hkv
        cases hr
        exact ⟨hfit', hgrows, fun _ _ => hown⟩

theorem get_weights (idx : Fin (m.weights C K).layers.length) :
    ∃ g, m.layers[idx.val]? = some g ∧ (m.weights C K).layers.get idx = g.weights C K := by
  have hlength : (m.weights C K).layers.length = m.layers.length := List.length_map _
  have hlt : idx.val < m.layers.length := hlength ▸ idx.isLt
  exact ⟨m.layers[idx.val], List.getElem?_eq_getElem hlt, List.getElem_map (GgufLayer.weights C K)⟩

/-- The keys and values of a source have the heads of the layer that reads them. -/
theorem extKv_fits (hfounded : Founded m) {g : GgufLayer W R} (hheads : ∀ g' ∈ m.layers, g'.nKvHead = g.nKvHead)
    (hg : m.layers[idx.val]? = some g) {caches : (m.weights C K).Caches} (hfit : CachesFit C K m caches) {ext : Option (T × T)}
    (hext : (g.weights C K).extKv idx caches = .ok ext) :
    (∀ kv, ext = some kv → Fits C g kv) ∧ (g.kvSourceLayer = none → ext = none) := by
  unfold LayerWeights.extKv at hext
  rw [show (g.weights C K).kvSourceLayer = g.kvSourceLayer from rfl] at hext
  cases hs : g.kvSourceLayer with
  | none =>
    rw [hs] at hext
    cases hext
    exact ⟨nofun, fun _ => rfl⟩
  | some s =>
    obtain ⟨hlt, source, hget, -, hdim, -⟩ := hfounded idx.val g s hg hs
    have hs' : s < (m.weights C K).layers.length := hlt.trans idx.isLt
    simp only [hs, dif_pos hs'] at hext
    cases hkv : caches ⟨s, hs'⟩ with
    | none =>
      rw [hkv] at hext
      cases hext
    | some kv =>
      rw [hkv] at hext
      cases hext
      refine ⟨?_, nofun⟩
      rintro _ ⟨⟩
      obtain ⟨b, seq, hk, hv⟩ := hfit ⟨s, hs'⟩ kv source hget hkv
      rw [hdim, hheads source (List.mem_of_getElem? hget)] at hk hv
      exact ⟨b, seq, hk, hv⟩

/-- A source is there once the layers before have run. -/
theorem extKv_ok (hfounded : Founded m) {g : GgufLayer W R} (hg : m.layers[idx.val]? = some g) {caches : (m.weights C K).Caches}
    (hbefore : ∀ j, j < idx → (∀ source, m.layers[j.val]? = some source → source.kvSourceLayer = none) → (caches j).isSome = true) :
    ∃ ext, (g.weights C K).extKv idx caches = .ok ext := by
  unfold LayerWeights.extKv
  rw [show (g.weights C K).kvSourceLayer = g.kvSourceLayer from rfl]
  cases hs : g.kvSourceLayer with
  | none => exact ⟨none, rfl⟩
  | some s =>
    obtain ⟨hlt, source, hget, hown, -⟩ := hfounded idx.val g s hg hs
    have hs' : s < (m.weights C K).layers.length := hlt.trans idx.isLt
    have hsome := hbefore ⟨s, hs'⟩ hlt fun source' hget' => by
      cases hget.symm.trans hget'
      exact hown
    obtain ⟨kv, hkv⟩ := Option.isSome_iff_exists.mp hsome
    exact ⟨some kv, by simp only [dif_pos hs', hkv]⟩

/-- The layers of a pass; those that are not to come have left their keys and values. -/
theorem readsFit_layers (hC : Shapes C) (hfounded : Founded m) (hheads : ∀ g ∈ m.layers, ∀ g' ∈ m.layers, g'.nKvHead = g.nKvHead)
    (b seq pos : Nat) (inputs : T) : ∀ (layers : List (Fin (m.weights C K).layers.length)) (h : T) {caches : (m.weights C K).Caches},
    layers.Pairwise (· < ·) → CachesFit C K m caches →
    (∀ j, j ∉ layers → (∀ source, m.layers[j.val]? = some source → source.kvSourceLayer = none) → (caches j).isSome = true) →
    ReadsFit C K m b seq pos inputs layers h caches
  | [], _, _, _, _, _ => trivial
  | idx :: layers, h, caches, hsorted, hfit, hbefore => by
    obtain ⟨hfirst, hsorted⟩ := List.pairwise_cons.mp hsorted
    obtain ⟨g, hg, hget⟩ := get_weights idx
    have hnot (j : Fin (m.weights C K).layers.length) (hj : j < idx) : j ∉ idx :: layers := by
      intro hmem
      rcases List.mem_cons.mp hmem with rfl | hmem
      · exact lt_irrefl _ hj
      · exact lt_asymm hj (hfirst j hmem)
    obtain ⟨ext, hext⟩ := extKv_ok hfounded hg fun j hj => hbefore j (hnot j hj)
    obtain ⟨hfits, hown⟩ := extKv_fits hfounded (hheads g (List.mem_of_getElem? hg)) hg hfit hext
    unfold ReadsFit
    rw [hget]
    refine ⟨ext, hext, fun g' x kv caches' hg' hkv => ?_, fun h' caches' hforward => ?_⟩
    · cases hg.symm.trans hg'
      exact (keysValues_fits hC hg hfits hfit hkv).1
    · obtain ⟨hfit', hgrows, hpopulated⟩ := forward_fits hC hg hfits hfit hforward
      refine readsFit_layers hC hfounded hheads b seq pos inputs layers h' hsorted hfit' fun j hj hsource => ?_
      by_cases he : j = idx
      · rw [he] at hsource ⊢
        exact hpopulated h' rfl (hown (hsource g hg))
      · exact hgrows j (hbefore j (fun hmem => (List.mem_cons.mp hmem).elim he hj) hsource)

/-- What a pass leaves in the caches, also where it fails. -/
theorem forwardLayers_fits (hC : Shapes C) (hfounded : Founded m)
    (hheads : ∀ g ∈ m.layers, ∀ g' ∈ m.layers, g'.nKvHead = g.nKvHead) (b seq pos : Nat) (inputs : T) :
    ∀ (layers : List (Fin (m.weights C K).layers.length)) (h : T) {caches : (m.weights C K).Caches}, CachesFit C K m caches →
      CachesFit C K m ((m.weights C K).forwardLayers C.toCandle b seq pos inputs layers h caches).2
  | [], _, _, hfit => hfit
  | idx :: layers, h, caches, hfit => by
    obtain ⟨g, hg, hget⟩ := get_weights idx
    unfold ModelWeights.forwardLayers
    dsimp only
    rw [hget]
    cases hext : (g.weights C K).extKv idx caches with
    | error e => exact hfit
    | ok ext =>
      obtain ⟨hfits, -⟩ := extKv_fits hfounded (hheads g (List.mem_of_getElem? hg)) hg hfit hext
      dsimp only
      generalize hforward : (g.weights C K).forward C.toCandle idx b seq pos ((m.weights C K).layerInput inputs idx) ext h caches =
        turn
      obtain ⟨r, caches'⟩ := turn
      have hfit' := (forward_fits hC hg hfits hfit hforward).1
      cases r with
      | error e => exact hfit'
      | ok h' => exact forwardLayers_fits hC hfounded hheads b seq pos inputs layers h' hfit'

theorem called_fits (hC : Shapes C) (hfounded : Founded m) (hheads : ∀ g ∈ m.layers, ∀ g' ∈ m.layers, g'.nKvHead = g.nKvHead)
    {caches : (m.weights C K).Caches} (h : Called C K m caches) : CachesFit C K m caches := by
  induction h with
  | loaded => exact fun _ _ _ _ => nofun
  | clear => exact fun _ _ _ _ => nofun
  | forward x pos h ih =>
    unfold ModelWeights.forward
    dsimp only
    split
    · exact ih
    · rename_i b seq h inputs _
      have hfit := forwardLayers_fits hC hfounded hheads b seq pos inputs (List.finRange _) h ih
      split
      · rename_i hrun
        rwa [hrun] at hfit
      · rename_i hrun
        rwa [hrun] at hfit

end

/-- Keys and values are shared soundly, and all passes find them, exactly where each source
has the head dimension of the layers that share it. -/
theorem kv_sharing_iff {T V W R : Type} {C : GgufCandle T V W R} (hC : Shapes C) (K : LayerKernels T W R) {ct : Content V W}
    {m : GgufModel W R} {hy : Hyperparameters R} (h : fromGguf C ct = .ok m) (hhy : ct.hyperparameters C = .ok hy) :
    (Founded m ∧ ∀ caches, Called C K m caches → ∀ b seq pos inputs h,
        ReadsFit C K m b seq pos inputs (List.finRange _) h caches) ↔ SourcesFit ct hy := by
  rw [← founded_iff h hhy]
  refine and_iff_left_of_imp fun hfounded caches hcalled b seq pos inputs x => ?_
  have hheads : ∀ g ∈ m.layers, ∀ g' ∈ m.layers, g'.nKvHead = g.nKvHead := by
    intro g hg g' hg'
    obtain ⟨n, hn⟩ := List.mem_iff_getElem?.mp hg
    obtain ⟨n', hn'⟩ := List.mem_iff_getElem?.mp hg'
    rw [(layer_spec h hhy hn).2.2.2.2, (layer_spec h hhy hn').2.2.2.2]
  exact readsFit_layers hC hfounded hheads b seq pos inputs _ x (List.pairwise_lt_finRange _) (called_fits hC hfounded hheads hcalled)
    fun j hj => absurd (List.mem_finRange j) hj

/-! ## Files -/

/-- Tensors that are their shapes. -/
def shapeCandle : GgufCandle (List Nat) Nat Unit Unit where
  row ids := .ok [1, ids.length]
  dims := id
  narrow t _ _ _ := .ok t
  squeeze t _ := .ok t
  cat
    | [b, count, seq, dim], [b', count', seq', dim'], 2 =>
      if b = b' ∧ count = count' ∧ dim = dim' then .ok [b, count, seq + seq', dim] else .error "shape mismatch in cat"
    | _, _, _ => .error "shape mismatch in cat"
  add t _ := .ok t
  toU32 := .ok
  toF32 _ := .ok ()
  defaultRopeFreqGlobal := ()
  defaultRopeFreqSwa := ()
  unitScale := ()
  dequantize := .ok
  qMatMul := .ok
  rmsNorm _ _ := .ok ()
  scalar := .ok
  rotaryEmbedding _ _ := .ok ()
  matMul _ := .ok
  norm _ := .ok
  heads _ b seq count headDim := .ok [b, count, seq, headDim]
  rope _ t _ := .ok t
  normalize t _ := .ok t

theorem shapes_shapeCandle : Shapes shapeCandle where
  heads h := by cases h; rfl
  norm h := by cases h; rfl
  rope h := by cases h; rfl
  normalize h := by cases h; rfl
  cat h hx hy := by
    cases hx
    cases hy
    change (if _ then _ else _) = _ at h
    split at h
    · cases h
      rfl
    · cases h

def shapeKernels : LayerKernels (List Nat) Unit Unit where
  mask _ _ seq pos := .ok [seq, seq + pos]
  attend _ q _ _ _ := .ok q
  ffn _ := .ok
  ple _ x _ := .ok x
  scale _ := .ok
  embed _ x := .ok (x ++ [1])
  perLayerInputs _ _ h := .ok h
  layerInput x _ := .ok x
  output _ x _ := .ok x

/-- Two layers with heads of dimension one. -/
def twoLayers (sharedKvLayers : Nat) : Content Nat Unit where
  metadata key :=
    if key = "gemma3.block_count" then some 2
    else if key = "gemma3.attention.shared_kv_layers" then some sharedKvLayers else some 1
  tensorInfos _ := some [1]
  tensor _ := .ok ()

def twoLayersHyper (sharedKvLayers : Nat) : Hyperparameters Unit where
  headCount := 1
  headCountKv := 1
  blockCount := 2
  embeddingLength := 1
  keyLengthGlobal := 1
  keyLengthSwa := 1
  rmsNormEps := ()
  slidingWindowSize := 1
  ropeFreqGlobal := ()
  ropeFreqSwa := ()
  finalLogitSoftcap := some ()
  sharedKvLayers

theorem last_layer_shares : ∃ m, fromGguf shapeCandle (twoLayers 1) = .ok m ∧
    Founded m ∧ ∀ caches, Called shapeCandle shapeKernels m caches → ∀ b seq pos inputs h,
      ReadsFit shapeCandle shapeKernels m b seq pos inputs (List.finRange _) h caches := by
  obtain ⟨m, hm⟩ : ∃ m, fromGguf shapeCandle (twoLayers 1) = .ok m := ⟨_, rfl⟩
  refine ⟨m, hm, (kv_sharing_iff shapes_shapeCandle shapeKernels hm
    (show (twoLayers 1).hyperparameters shapeCandle = .ok (twoLayersHyper 1) by decide +kernel)).mpr ?_⟩
  exact .inr ⟨by decide, fun _ _ _ _ hdim => hdim⟩

/-- Where all layers are to share, the first has itself for its source. -/
theorem all_layers_share : ∃ m, fromGguf shapeCandle (twoLayers 2) = .ok m ∧ ¬ Founded m := by
  refine ⟨_, rfl, fun h => ?_⟩
  have hlt := (h 0 _ 0 rfl rfl).1
  cases hlt

end Llmctl.Native
