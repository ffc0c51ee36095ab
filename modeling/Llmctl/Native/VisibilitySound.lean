import Llmctl.Native.ForwardSound
import Llmctl.Native.Visibility

/-!
# Where attention sees what it is meant to

The mask of a batch at position 0 is right for each layer. The zeros in front of the mask of a
later batch hide what is cached, and a single token has no mask that would end a window.
-/

namespace Llmctl.Native

open Outcome (ofResult)

theorem mapM_ok {α β : Type} {f : α → Outcome β} {g : α → β} {l : List α} (h : ∀ a ∈ l, f a = .ok (g a)) :
    l.mapM f = .ok (l.map g) := by
  induction l with
  | nil => rfl
  | cons a l ih =>
    rw [List.mapM_cons, h a List.mem_cons_self, ih fun b hb => h b (List.mem_cons_of_mem a hb)]
    rfl

section
variable {W R : Type} {g : GgufLayer W R}

/-! ## Masks -/

variable (g) in
/-- The mask without its check for overflow. -/
def GgufLayer.cell (i j : Nat) : Nat :=
  match g.slidingWindow with
  | none => if i < j then 0 else 1
  | some w => if i < j ∨ j + w < i then 0 else 1

theorem cell_ne_zero (i j : Nat) : g.cell i j ≠ 0 ↔ j ≤ i ∧ ∀ w, g.slidingWindow = some w → i ≤ j + w := by
  unfold GgufLayer.cell
  cases g.slidingWindow with
  | none =>
    dsimp only
    split
    · simpa
    · simp
      omega
  | some w =>
    have hw : (∀ w', some w = some w' → i ≤ j + w') ↔ i ≤ j + w :=
      ⟨fun h => h w rfl, fun h w' hw' => by cases hw'; exact h⟩
    rw [hw]
    dsimp only
    split <;> omega

theorem maskCell_ok {i j : Nat} (h : ∀ w, g.slidingWindow = some w → j + w < 2 ^ 64) : g.maskCell i j = .ok (g.cell i j) := by
  unfold GgufLayer.maskCell GgufLayer.cell
  cases hw : g.slidingWindow with
  | none => rfl
  | some w =>
    by_cases hij : i < j
    · simp [hij]
    · simp [hij, Outcome.add_ok (h w hw)]

theorem maskCells_ok {seq : Nat} (h : ∀ w, g.slidingWindow = some w → seq + w < 2 ^ 64) :
    g.maskCells seq = .ok ((List.range seq).map fun i => (List.range seq).map (g.cell i)) := by
  refine mapM_ok fun i _ => mapM_ok fun j hj => maskCell_ok fun w hw => ?_
  have hlt := h w hw
  have hj' := List.mem_range.mp hj
  omega

variable (g) in
/-- The mask of a batch, behind zeros for what is cached. -/
def GgufLayer.maskRows (seq pos : Nat) : List (List Nat) :=
  (List.range seq).map fun i => List.replicate pos 0 ++ (List.range seq).map (g.cell i)

theorem mask_traced {glues : Bool} {seq pos : Nat} (hglues : pos = 0 ∨ glues = true) (hlt : seq + pos < 2 ^ 64)
    (h : ∀ w, g.slidingWindow = some w → seq + w < 2 ^ 64) :
    g.mask (tracedKernels W R glues) 1 seq pos = .ok (.mask (g.maskRows seq pos)) := by
  have hrows : (tracedKernels W R glues).maskRows ((List.range seq).map fun i => (List.range seq).map (g.cell i)) seq pos =
      .ok (.mask (g.maskRows seq pos)) := by
    simp only [tracedKernels, if_pos hglues, List.map_map]
    rfl
  have hwidth : ∀ row ∈ g.maskRows seq pos, row.length = seq + pos := by
    intro row hrow
    obtain ⟨i, -, rfl⟩ := List.mem_map.mp hrow
    simp [Nat.add_comm]
  have hexpand : (tracedKernels W R glues).expand (.mask (g.maskRows seq pos)) 1 seq (seq + pos) =
      .ok (.mask (g.maskRows seq pos)) := if_pos ⟨by simp [GgufLayer.maskRows], hwidth⟩
  unfold GgufLayer.mask
  rw [maskCells_ok h, Outcome.ok_bind, hrows, Outcome.ofResult_ok, Outcome.ok_bind, Outcome.add_ok hlt, Outcome.ok_bind, hexpand]
  rfl

/-! ## Rows -/

variable (g) in
/-- What the queries of a call see. -/
def GgufLayer.rows (seq pos : Nat) : Rows :=
  if seq = 1 then [(pos, List.range (pos + 1))]
  else (List.range seq).map fun i => (pos + i, unmasked (List.range (pos + seq)) (List.replicate pos 0 ++ (List.range seq).map (g.cell i)))

theorem mem_unmasked_range {n : Nat} {row : List Nat} (j : Nat) :
    j ∈ unmasked (List.range n) row ↔ j < n ∧ ∃ c, row[j]? = some c ∧ c ≠ 0 := by
  unfold unmasked
  rw [List.mem_filterMap]
  constructor
  · rintro ⟨⟨j', c⟩, hmem, hsome⟩
    obtain ⟨i, hi⟩ := List.mem_iff_getElem?.mp hmem
    obtain ⟨hkey, hcell⟩ := List.getElem?_zip_eq_some.mp hi
    have hi' : i < n := by
      simpa using (List.getElem?_eq_some_iff.mp hkey).1
    rw [List.getElem?_range hi'] at hkey
    cases hkey
    dsimp only at hsome
    split at hsome
    · cases hsome
    · rename_i hne
      cases hsome
      exact ⟨hi', c, hcell, hne⟩
  · rintro ⟨hlt, c, hc, hne⟩
    refine ⟨(j, c), List.mem_iff_getElem?.mpr ⟨j, List.getElem?_zip_eq_some.mpr ⟨?_, hc⟩⟩, if_neg hne⟩
    simp [hlt]

theorem mem_unmasked {seq pos : Nat} {cells : Nat → Nat} (j : Nat) :
    j ∈ unmasked (List.range (pos + seq)) (List.replicate pos 0 ++ (List.range seq).map cells) ↔
      pos ≤ j ∧ j < pos + seq ∧ cells (j - pos) ≠ 0 := by
  rw [mem_unmasked_range]
  by_cases hj : j < pos
  · simp [List.getElem?_append_left (show j < (List.replicate pos 0).length by simpa using hj), hj]
  · rw [List.getElem?_append_right (by simpa using hj), List.length_replicate, List.getElem?_map]
    by_cases hlt : j < pos + seq
    · rw [List.getElem?_range (show j - pos < seq by omega)]
      simp only [Option.map_some, Option.some.injEq, exists_eq_left']
      omega
    · exact iff_of_false (fun h => hlt h.1) (fun h => hlt h.2.1)

/-! ## Calls whose rows are right -/

variable (g) in
/-- Whether a layer sees what it is meant to in a call: a token on its own where it is in the
window with all before it, a batch at position 0 or with a window of nothing. -/
def GgufLayer.Fits (glues : Bool) (seq pos : Nat) : Prop :=
  if seq = 1 then ∀ w, g.slidingWindow = some w → pos ≤ w else pos = 0 ∨ glues = true ∧ g.slidingWindow = some 0

theorem rows_one_iff (pos : Nat) : g.SeesRight 1 pos (g.rows 1 pos) ↔ ∀ w, g.slidingWindow = some w → pos ≤ w := by
  have hrows : g.rows 1 pos = [(pos, List.range (pos + 1))] := if_pos rfl
  rw [hrows]
  constructor
  · intro h w hw
    have hzero := (h.keys pos _ List.mem_cons_self 0).mp (List.mem_range.mpr (Nat.succ_pos pos))
    have hle := hzero.2 w hw
    omega
  · intro h
    refine ⟨rfl, fun p js hmem j => ?_⟩
    obtain ⟨rfl, rfl⟩ : p = pos ∧ js = List.range (pos + 1) := by simpa using hmem
    rw [List.mem_range]
    constructor
    · intro hj
      refine ⟨by omega, fun w hw => ?_⟩
      have hle := h w hw
      omega
    · exact fun hj => Nat.lt_succ_of_le hj.1

theorem rows_batch_iff {seq pos : Nat} (hseq : 0 < seq) (hne : seq ≠ 1) :
    g.SeesRight seq pos (g.rows seq pos) ↔ pos = 0 ∨ g.slidingWindow = some 0 := by
  have hrows : g.rows seq pos = (List.range seq).map fun i =>
      (pos + i, unmasked (List.range (pos + seq)) (List.replicate pos 0 ++ (List.range seq).map (g.cell i))) := if_neg hne
  have hmem (i j : Nat) : j ∈ unmasked (List.range (pos + seq)) (List.replicate pos 0 ++ (List.range seq).map (g.cell i)) ↔
      pos ≤ j ∧ j < pos + seq ∧ j ≤ pos + i ∧ ∀ w, g.slidingWindow = some w → pos + i ≤ j + w := by
    rw [mem_unmasked, cell_ne_zero]
    constructor
    · rintro ⟨hpos, hlt, hle, hw⟩
      refine ⟨hpos, hlt, by omega, fun w hsome => ?_⟩
      have := hw w hsome
      omega
    · rintro ⟨hpos, hlt, hle, hw⟩
      refine ⟨hpos, hlt, by omega, fun w hsome => ?_⟩
      have := hw w hsome
      omega
  rw [hrows]
  constructor
  · intro h
    by_contra hnot
    push Not at hnot
    -- The first query of the batch does not see the last cached key.
    have hfirst := h.keys pos _ (List.mem_map.mpr ⟨0, List.mem_range.mpr hseq, rfl⟩) (pos - 1)
    have hsees : g.Sees pos (pos - 1) := by
      refine ⟨Nat.sub_le _ _, fun w hw => ?_⟩
      have hw' : w ≠ 0 := fun hzero => hnot.2 (hzero ▸ hw)
      omega
    have hcached := ((hmem 0 _).mp (hfirst.mpr hsees)).1
    have hpos := hnot.1
    omega
  · intro h
    refine ⟨by rw [List.map_map]; rfl, fun p js hrow j => ?_⟩
    obtain ⟨i, hi, heq⟩ := List.mem_map.mp hrow
    cases heq
    have hlt := List.mem_range.mp hi
    rw [hmem, GgufLayer.Sees]
    constructor
    · exact fun hj => hj.2.2
    · rintro ⟨hle, hw⟩
      refine ⟨?_, by omega, hle, hw⟩
      rcases h with rfl | hzero
      · exact Nat.zero_le j
      · have := hw 0 hzero
        omega

theorem rows_right_iff {glues : Bool} {seq pos : Nat} (hseq : 0 < seq) (hglues : seq = 1 ∨ pos = 0 ∨ glues = true) :
    g.SeesRight seq pos (g.rows seq pos) ↔ g.Fits glues seq pos := by
  unfold GgufLayer.Fits
  by_cases hone : seq = 1
  · subst hone
    rw [if_pos rfl]
    exact rows_one_iff pos
  · rw [if_neg hone, rows_batch_iff hseq hone]
    have hglues' := hglues.resolve_left hone
    tauto

/-! ## One layer -/

section
variable (r : R) (glues : Bool) {seq pos : Nat} {seen : List Rows}

theorem query_traced : g.query (tracedCandle W r) (.hidden seq seen) pos = .ok (.heads ((List.range seq).map (pos + ·))) := rfl

theorem key_traced : g.key (tracedCandle W r) (.hidden seq seen) pos = .ok (.heads ((List.range seq).map (pos + ·))) := rfl

theorem value_traced : g.value (tracedCandle W r) (.hidden seq seen) = .ok (.heads (List.range seq)) := rfl

theorem attend_traced {v : Traced} {groups : Nat} {mask : Option Traced}
    (hmask : mask = if seq = 1 then none else some (.mask (g.maskRows seq pos))) :
    (tracedKernels W R glues).attend g (.heads ((List.range seq).map (pos + ·))) (.heads (List.range (pos + seq))) v groups mask =
      .ok (.attended (g.rows seq pos)) := by
  subst hmask
  by_cases hone : seq = 1
  · subst hone
    rfl
  · rw [if_neg hone]
    have hwidth : ∀ row ∈ g.maskRows seq pos, row.length = (List.range (pos + seq)).length := by
      intro row hrow
      obtain ⟨i, -, rfl⟩ := List.mem_map.mp hrow
      simp
    have hcells : (g.maskRows seq pos).length = ((List.range seq).map (pos + ·)).length := by simp [GgufLayer.maskRows]
    have hrows : ((List.range seq).map (pos + ·)).zip ((g.maskRows seq pos).map (unmasked (List.range (pos + seq)))) =
        g.rows seq pos := by
      unfold GgufLayer.rows GgufLayer.maskRows
      rw [if_neg hone, List.map_map, List.zip_map']
      rfl
    rw [← hrows]
    exact if_pos ⟨hcells, hwidth⟩

end

/-- A cache of keys and values of the positions below `n`. -/
def Holds (n : Nat) (cache : Option (Traced × Traced)) : Prop := ∃ vs, cache = some (.heads (List.range n), .heads vs)

variable (g) in
theorem keysValues_traced {n : Nat} (r : R) (seq : Nat) (seen : List Rows) {pos : Nat} {idx : Fin n} {caches : KvCaches Traced n}
    (h : pos = 0 ∨ Holds pos (caches idx)) :
    ∃ vs, g.keysValues (tracedCandle W r) idx (.hidden seq seen) pos none caches =
      (.ok (.heads (List.range (pos + seq)), .heads vs),
        Function.update caches idx (some (.heads (List.range (pos + seq)), .heads vs))) := by
  have hfresh : (List.range seq).map (0 + ·) = List.range (0 + seq) := by simp
  unfold GgufLayer.keysValues
  rw [key_traced, value_traced]
  cases hcache : caches idx with
  | none =>
    rcases h with rfl | ⟨vs, hvs⟩
    · exact ⟨List.range seq, by rw [← hfresh]; rfl⟩
    · rw [hcache] at hvs
      cases hvs
  | some kv =>
    by_cases hpos : pos = 0
    · subst hpos
      exact ⟨List.range seq, by rw [← hfresh]; rfl⟩
    · obtain ⟨vs, hvs⟩ := h.resolve_left hpos
      rw [hcache] at hvs
      cases hvs
      refine ⟨vs ++ List.range seq, ?_⟩
      rw [List.range_add]
      simp only [if_neg hpos]
      rfl

variable {V : Type} {m : GgufModel W R} {t : FileTable V R} {hy : Hyperparameters R}

variable (m hy) in
/-- The layers in front of `k` have gone through a call, the others have not. -/
def Filled (seq pos k : Nat) (caches : KvCaches Traced m.layers.length) : Prop :=
  ∀ idx, idx.val < hy.nOwnKv → (idx.val < k → Holds (pos + seq) (caches idx)) ∧
    (k ≤ idx.val → pos = 0 ∨ Holds pos (caches idx))

/-- What a layer attends to: its own keys, or those that an earlier layer has for the call. -/
theorem keys_traced (h : t.Loads hy m) (howns : 0 < hy.nOwnKv) (r : R) {seq pos : Nat} (seen : List Rows) {idx : Fin m.layers.length} {caches : KvCaches Traced m.layers.length} (hfilled : Filled m hy seq pos idx caches) :
    ∃ ext vs caches', (m.layers.get idx).extKv idx caches = (.ok ext, caches) ∧
      (m.layers.get idx).keysValues (tracedCandle W r) idx (.hidden seq seen) pos ext caches =
        (.ok (.heads (List.range (pos + seq)), .heads vs), caches') ∧ Filled m hy seq pos (idx.val + 1) caches' := by
  cases hsrc : (m.layers.get idx).kvSourceLayer with
  | none =>
    have hown : idx.val < hy.nOwnKv := by
      rw [h.source] at hsrc
      unfold Hyperparameters.kvSourceLayer at hsrc
      split at hsrc
      · cases hsrc
      · omega
    obtain ⟨vs, hkv⟩ := keysValues_traced (m.layers.get idx) r seq seen ((hfilled idx hown).2 (Nat.le_refl _))
    refine ⟨none, vs, _, ?_, hkv, fun other hother => ⟨fun hlt => ?_, fun hle => ?_⟩⟩
    · unfold GgufLayer.extKv
      rw [hsrc]
    · by_cases hidx : other = idx
      · exact ⟨vs, by rw [hidx, Function.update_self]⟩
      · rw [Function.update_of_ne hidx]
        have hne : other.val ≠ idx.val := fun heq => hidx (Fin.ext heq)
        exact (hfilled other hother).1 (by omega)
    · have hidx : other ≠ idx := fun heq => by
        rw [heq] at hle
        omega
      rw [Function.update_of_ne hidx]
      exact (hfilled other hother).2 (by omega)
  | some src =>
    obtain ⟨hle, rfl⟩ := Loads.source_lt h hsrc
    have hidx := idx.isLt
    have hlt : hy.nOwnKv - (if hy.isSwa (t.headDim hy idx) then 2 else 1) < hy.nOwnKv := by
      split <;> omega
    obtain ⟨vs, hvs⟩ := (hfilled ⟨_, by omega⟩ hlt).1 (Nat.lt_of_lt_of_le hlt hle)
    refine ⟨some (.heads (List.range (pos + seq)), .heads vs), vs, caches, ?_, rfl,
      fun other hother => ⟨fun hlt' => ?_, fun hle' => ?_⟩⟩
    · unfold GgufLayer.extKv
      rw [hsrc]
      dsimp only
      rw [dif_pos (by omega), hvs]
    · exact (hfilled other hother).1 (by omega)
    · omega

section
variable (h : t.Loads hy m) (howns : 0 < hy.nOwnKv) (hheads : hy.headCountKv ≠ 0) (r : R) {glues : Bool} {seq pos : Nat}
  (hglues : seq = 1 ∨ pos = 0 ∨ glues = true) (hlt : seq + pos < 2 ^ 64)
  (hwindow : ∀ idx : Fin m.layers.length, ∀ w, (m.layers.get idx).slidingWindow = some w → seq + w < 2 ^ 64)
include h howns hheads hglues hlt hwindow

theorem layerOutcome_traced (seen : List Rows) {idx : Fin m.layers.length} {caches : KvCaches Traced m.layers.length}
    (hfilled : Filled m hy seq pos idx caches) :
    ∃ caches', m.layerOutcome (tracedCandle W r) (tracedKernels W R glues) 1 seq pos (.hidden seq []) idx (.hidden seq seen) caches =
        (.ok (.hidden seq (seen ++ [(m.layers.get idx).rows seq pos])), caches') ∧ Filled m hy seq pos (idx.val + 1) caches' := by
  obtain ⟨ext, vs, caches', hext, hkv, hfilled'⟩ := keys_traced h howns r seen hfilled
  have hmask : (if seq = 1 then pure none else some <$> (m.layers.get idx).mask (tracedKernels W R glues) 1 seq pos) =
      Outcome.ok (if seq = 1 then none else some (.mask ((m.layers.get idx).maskRows seq pos))) := by
    by_cases hone : seq = 1
    · rw [if_pos hone, if_pos hone]
      rfl
    · rw [if_neg hone, if_neg hone, mask_traced (hglues.resolve_left hone) hlt (hwindow idx)]
      rfl
  have hdiv : Outcome.div (m.layers.get idx).nHead (m.layers.get idx).nKvHead =
      .ok ((m.layers.get idx).nHead / (m.layers.get idx).nKvHead) := Outcome.div_ok (by rwa [h.heads])
  have hattn : (m.layers.get idx).forwardAttn (tracedCandle W r) (tracedKernels W R glues) idx (.hidden seq seen)
      (if seq = 1 then none else some (.mask ((m.layers.get idx).maskRows seq pos))) pos ext caches =
      (.ok (.attended ((m.layers.get idx).rows seq pos)), caches') := by
    unfold GgufLayer.forwardAttn
    rw [query_traced, Outcome.ofResult_ok, Outcome.Call.lift_bind, Outcome.Call.bind_of_ok hkv, hdiv, Outcome.Call.lift_bind,
      attend_traced glues rfl]
    rfl
  refine ⟨caches', ?_, hfilled'⟩
  unfold GgufModel.layerOutcome
  rw [dif_pos idx.isLt, Outcome.Call.bind_of_ok hext, Fin.eta, hmask, Outcome.Call.lift_bind]
  change ((m.layers.get idx).forwardAttn (tracedCandle W r) (tracedKernels W R glues) idx (.hidden seq seen) _ pos ext >>= _) caches = _
  rw [Outcome.Call.bind_of_ok hattn]
  rfl

/-! ## Whole calls -/

theorem layersOutcome_traced (count : Nat) (seen : List Rows) (k : Nat) (hk : k + count = m.layers.length)
    {caches : KvCaches Traced m.layers.length} (hfilled : Filled m hy seq pos k caches) :
    ∃ caches', m.layersOutcome (tracedCandle W r) (tracedKernels W R glues) 1 seq pos (.hidden seq []) (List.range' k count)
        (.hidden seq seen) caches = (.ok (.hidden seq (seen ++ (m.layers.drop k).map (·.rows seq pos))), caches') ∧
      Filled m hy seq pos m.layers.length caches' := by
  induction count generalizing k seen caches with
  | zero =>
    rw [Nat.add_zero] at hk
    subst hk
    exact ⟨caches, by rw [List.drop_length]; simp; rfl, hfilled⟩
  | succ count ih =>
    have hidx : k < m.layers.length := by omega
    have hfilled' : Filled m hy seq pos (⟨k, hidx⟩ : Fin m.layers.length) caches := hfilled
    obtain ⟨caches', hlayer, hfilled'⟩ := layerOutcome_traced h howns hheads r hglues hlt hwindow seen hfilled'
    obtain ⟨caches'', hlayers, hfilled''⟩ := ih (seen ++ [(m.layers.get ⟨k, hidx⟩).rows seq pos]) (k + 1) (by omega) hfilled'
    have hrows : (m.layers.drop k).map (·.rows seq pos) =
        (m.layers.get ⟨k, hidx⟩).rows seq pos :: (m.layers.drop (k + 1)).map (·.rows seq pos) := by
      rw [List.drop_eq_getElem_cons hidx]
      rfl
    refine ⟨caches'', ?_, hfilled''⟩
    rw [List.range'_succ]
    unfold GgufModel.layersOutcome
    rw [Outcome.Call.bind_of_ok hlayer, hlayers, hrows, List.append_assoc]
    rfl

theorem forwardOutcome_traced (hseq : 0 < seq) {caches : KvCaches Traced m.layers.length} (hfilled : Filled m hy seq pos 0 caches) :
    ∃ caches', m.forwardOutcome (tracedCandle W r) (tracedKernels W R glues) (.tokens seq) pos caches =
        (.ok (.hidden seq (m.layers.map (·.rows seq pos))), caches') ∧ Filled m hy seq pos m.layers.length caches' := by
  have hcount : 0 + m.numLayers = m.layers.length := by rw [h.numLayers, h.length, Nat.zero_add]
  obtain ⟨caches', hlayers, hfilled'⟩ :=
    layersOutcome_traced h howns hheads r hglues hlt hwindow m.numLayers [] 0 hcount hfilled
  refine ⟨caches', ?_, hfilled'⟩
  have hids : Outcome.mul 1 seq = .ok (1 * seq) := Outcome.mul_ok (by omega)
  have hlast : Outcome.sub seq 1 = .ok (seq - 1) := Outcome.sub_ok hseq
  unfold GgufModel.forwardOutcome
  change (Outcome.Call.lift (Outcome.mul 1 seq) >>= fun ids => _) caches = _
  rw [hids, Outcome.Call.lift_bind]
  change (m.layersOutcome (tracedCandle W r) (tracedKernels W R glues) 1 seq pos (.hidden seq []) (List.range m.numLayers)
    (.hidden seq []) >>= fun x => Outcome.Call.lift (Outcome.sub seq 1) >>= fun last => _) caches = _
  rw [List.range_eq_range', Outcome.Call.bind_of_ok hlayers, hlast, Outcome.Call.lift_bind]
  rfl

end

/-- Where the zeros cannot be put in front of the cells, a later batch fails. -/
theorem forwardOutcome_unglued (h : t.Loads hy m) (howns : 0 < hy.nOwnKv) (r : R) {seq pos : Nat} (hone : seq ≠ 1) (hpos : pos ≠ 0)
    (hlt : seq + pos < 2 ^ 64)
    (hwindow : ∀ idx : Fin m.layers.length, ∀ w, (m.layers.get idx).slidingWindow = some w → seq + w < 2 ^ 64)
    (caches : KvCaches Traced m.layers.length) :
    (m.forwardOutcome (tracedCandle W r) (tracedKernels W R false) (.tokens seq) pos caches).1 =
      .err "dtype mismatch in cat" := by
  have hcount : hy.nOwnKv ≤ hy.blockCount := Nat.sub_le _ _
  have hlen : 0 < m.layers.length := by rw [h.length]; omega
  obtain ⟨count, hlayers⟩ : ∃ count, m.numLayers = count + 1 := ⟨m.numLayers - 1, by rw [h.numLayers]; omega⟩
  have hext : (m.layers.get ⟨0, hlen⟩).extKv 0 caches = (.ok none, caches) := by
    have hsrc : (m.layers.get ⟨0, hlen⟩).kvSourceLayer = none := by
      rw [h.source]
      exact if_neg (Nat.not_le_of_lt howns)
    unfold GgufLayer.extKv
    rw [hsrc]
  have hmask : (m.layers.get ⟨0, hlen⟩).mask (tracedKernels W R false) 1 seq pos = .err "dtype mismatch in cat" := by
    have hrows (cells : List (List Nat)) : (tracedKernels W R false).maskRows cells seq pos = .error "dtype mismatch in cat" :=
      if_neg (by simpa using hpos)
    unfold GgufLayer.mask
    rw [maskCells_ok (hwindow _), Outcome.ok_bind, hrows]
    rfl
  have hlayer : (m.layerOutcome (tracedCandle W r) (tracedKernels W R false) 1 seq pos (.hidden seq []) 0 (.hidden seq []) caches) =
      (.err "dtype mismatch in cat", caches) := by
    unfold GgufModel.layerOutcome
    rw [dif_pos hlen, Outcome.Call.bind_of_ok hext, if_neg hone, hmask]
    rfl
  have hids : Outcome.mul 1 seq = .ok (1 * seq) := Outcome.mul_ok (by omega)
  unfold GgufModel.forwardOutcome
  change ((Outcome.Call.lift (Outcome.mul 1 seq) >>= fun ids => _ : Outcome.Call _ _) caches).1 = _
  rw [hids, Outcome.Call.lift_bind]
  change ((m.layersOutcome (tracedCandle W r) (tracedKernels W R false) 1 seq pos (.hidden seq []) (List.range m.numLayers)
    (.hidden seq []) >>= fun x => _ : Outcome.Call _ _) caches).1 = _
  rw [hlayers, List.range_eq_range', List.range'_succ]
  change ((Outcome.Call.bind (Outcome.Call.bind (m.layerOutcome _ _ 1 seq pos (.hidden seq []) 0 (.hidden seq [])) _) _) caches).1 = _
  unfold Outcome.Call.bind
  rw [hlayer]

/-! ## Whole sequences -/

variable (m hy) in
/-- The layers with keys of their own have those of the positions below `pos`. -/
def Cached (pos : Nat) (caches : KvCaches Traced m.layers.length) : Prop :=
  ∀ idx, idx.val < hy.nOwnKv → pos = 0 ∨ Holds pos (caches idx)

theorem Cached.filled {pos : Nat} {caches : KvCaches Traced m.layers.length} (h : Cached m hy pos caches) (seq : Nat) :
    Filled m hy seq pos 0 caches := fun idx hidx => ⟨fun hlt => absurd hlt (Nat.not_lt_zero _), fun _ => h idx hidx⟩

theorem Filled.cached {seq pos : Nat} {caches : KvCaches Traced m.layers.length}
    (h : Filled m hy seq pos m.layers.length caches) : Cached m hy (pos + seq) caches :=
  fun idx hidx => .inr ((h idx hidx).1 idx.isLt)

theorem right_iff {seq pos : Nat} {glues : Bool} (hseq : 0 < seq) (hglues : seq = 1 ∨ pos = 0 ∨ glues = true) :
    TracedCall.Right m ⟨seq, pos, .ok (.hidden seq (m.layers.map (·.rows seq pos)))⟩ ↔ ∀ g ∈ m.layers, g.Fits glues seq pos := by
  have hforall : List.Forall₂ (fun g rows => g.SeesRight seq pos rows) m.layers (m.layers.map (·.rows seq pos)) ↔
      ∀ g ∈ m.layers, g.Fits glues seq pos := by
    rw [List.forall₂_map_right_iff, List.forall₂_same]
    exact forall₂_congr fun g _ => rows_right_iff hseq hglues
  rw [← hforall]
  constructor
  · rintro ⟨seen, hok, hall⟩
    cases hok
    exact hall
  · exact fun hall => ⟨_, rfl, hall⟩

theorem feed_right_iff (h : t.Loads hy m) (howns : 0 < hy.nOwnKv) (hheads : hy.headCountKv ≠ 0) (r : R) (glues : Bool)
    (hwindow : hy.slidingWindowSize < 2 ^ 32) {sizes : List Nat} {pos : Nat} {caches : KvCaches Traced m.layers.length}
    (hcached : Cached m hy pos caches) (hsizes : ∀ seq ∈ sizes, 0 < seq) (hsum : pos + sizes.sum < 2 ^ 63) :
    (∀ call ∈ m.feed r glues sizes pos caches, call.Right m) ↔
      ∀ call ∈ callsFrom sizes pos, ∀ g ∈ m.layers, g.Fits glues call.1 call.2 := by
  induction sizes generalizing pos caches with
  | nil => simp [GgufModel.feed, callsFrom]
  | cons seq sizes ih =>
    rw [List.sum_cons] at hsum
    have hseq := hsizes seq List.mem_cons_self
    have hwindow' (idx : Fin m.layers.length) (w : Nat) (hw : (m.layers.get idx).slidingWindow = some w) : seq + w < 2 ^ 64 := by
      rw [h.window] at hw
      split at hw
      · cases hw
        omega
      · cases hw
    unfold GgufModel.feed callsFrom
    rw [List.forall_mem_cons, List.forall_mem_cons]
    by_cases hglues : seq = 1 ∨ pos = 0 ∨ glues = true
    · obtain ⟨caches', hforward, hfilled⟩ :=
        forwardOutcome_traced h howns hheads r hglues (by omega) hwindow' hseq (hcached.filled seq)
      rw [hforward]
      refine and_congr (right_iff hseq hglues) ?_
      exact ih hfilled.cached (fun s hs => hsizes s (List.mem_cons_of_mem seq hs)) (by omega)
    · push Not at hglues
      obtain ⟨hone, hpos, hglues⟩ := hglues
      have hunglued : glues = false := by simpa using hglues
      subst hunglued
      have hlen : 0 < m.layers.length := by
        have hcount : hy.nOwnKv ≤ hy.blockCount := Nat.sub_le _ _
        rw [h.length]
        omega
      refine iff_of_false (fun hright => ?_) (fun hfits => ?_)
      · obtain ⟨seen, hok, -⟩ := hright.1
        dsimp only at hok
        rw [forwardOutcome_unglued h howns r hone hpos (by omega) hwindow'] at hok
        cases hok
      · have hfirst := hfits.1 (m.layers.get ⟨0, hlen⟩) (List.get_mem _ _)
        unfold GgufLayer.Fits at hfirst
        rw [if_neg hone] at hfirst
        obtain hzero | ⟨hfalse, -⟩ := hfirst
        · exact hpos hzero
        · cases hfalse

end

/-! ## Loaded models -/

/-- Attention sees what it is meant to, however a sequence is fed, just where each token on its
own is in the window with all before it, and no batch but the first one follows. -/
theorem visibility_iff {T V W R : Type} {t : FileTable V R} {C : CheckedCandle T V W R} {ct : Content V W}
    {hy : Hyperparameters R} {m : GgufModel W R} (hread : t.ReadBy C ct) (hhy : t.hyperparameters = .ok hy)
    (hload : fromGgufOutcome C ct = .ok m) (howns : 0 < hy.nOwnKv) (hheads : hy.headCountKv ≠ 0) (r : R) (glues : Bool)
    {sizes : List Nat} (hsizes : ∀ seq ∈ sizes, 0 < seq) (hsum : sizes.sum < 2 ^ 63) :
    (∀ call ∈ m.feed r glues sizes 0 fun _ => none, call.Right m) ↔
      ∀ call ∈ callsFrom sizes 0, ∀ g ∈ m.layers, g.Fits glues call.1 call.2 := by
  refine feed_right_iff (loads_of_outcome hread hhy hload) howns hheads r glues (FileTable.hyperparameters_lt hhy).2.2
    (fun _ _ => .inl rfl) hsizes ?_
  rwa [Nat.zero_add]

/-- A model of one global layer sees what it is meant to in a prompt and the tokens after it. -/
theorem visibility_global : ∃ m, fromGgufOutcome (oneLayerFile 2 1).candle (oneLayerFile 2 1).content = .ok m ∧
    ∀ call ∈ m.feed () false [3, 1, 1] 0 fun _ => none, call.Right m := by
  refine ⟨_, rfl, ?_⟩
  refine (visibility_iff (FileTable.readBy_candle _) oneLayerFile_hyper rfl (by decide) (by decide) () false (by decide)
    (by decide)).mpr ?_
  intro call hcall g hg
  have hglobal : g.slidingWindow = none := by
    rw [List.mem_singleton.mp hg]
    rfl
  have hcalls : call = (3, 0) ∨ call = (1, 3) ∨ call = (1, 4) := by simpa [callsFrom] using hcall
  obtain rfl | rfl | rfl := hcalls
  · exact .inl rfl
  · exact fun w hw => absurd (hglobal.symm.trans hw) (by simp)
  · exact fun w hw => absurd (hglobal.symm.trans hw) (by simp)

/-- With a window of one position, the token after a prompt of two sees the first of them. -/
theorem window_not_seen : ∃ m, fromGgufOutcome (oneLayerFile 4 1).candle (oneLayerFile 4 1).content = .ok m ∧
    (m.feed () true [2, 1] 0 fun _ => none).map (·.result) =
      [.ok (.hidden 2 [[(0, [0]), (1, [0, 1])]]), .ok (.hidden 1 [[(2, [0, 1, 2])]])] ∧
    ¬ ∀ call ∈ m.feed () true [2, 1] 0 fun _ => none, call.Right m := by
  refine ⟨_, rfl, rfl, fun hright => ?_⟩
  -- The token at position 2 sees the key at position 0, which is out of its window.
  obtain ⟨seen, hok, hall⟩ := hright _ (List.mem_cons_of_mem _ List.mem_cons_self)
  cases hok
  cases hall with
  | cons hsees _ =>
    have hfar := ((hsees.keys 2 [0, 1, 2] (by decide) 0).mp (by decide)).2 1 rfl
    omega

end Llmctl.Native
