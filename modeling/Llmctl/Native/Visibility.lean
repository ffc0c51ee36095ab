import Llmctl.Native.Checked

/-!
# What attention sees

A forward pass over tensors that keep the positions of what is in them. A key that was
computed at a position is known by it, and a query by the keys that its mask leaves to it.
-/

namespace Llmctl.Native

/-- The queries of a layer with the positions of the keys that each may attend to. -/
abbrev Rows := List (Nat × List Nat)

inductive Traced where
  | tokens (seq : Nat)
  /-- The state behind some layers, and what their queries saw. -/
  | hidden (seq : Nat) (seen : List Rows)
  /-- Queries, keys or values by their positions. -/
  | heads (positions : List Nat)
  | mask (cells : List (List Nat))
  | attended (rows : Rows)
  deriving DecidableEq, Repr

/-- The keys that a row of a mask leaves: a cell of zero sets the weight of its key to nothing. -/
def unmasked (keys row : List Nat) : List Nat := (keys.zip row).filterMap fun e => if e.2 = 0 then none else some e.1

section
variable {W R : Type}

def tracedCandle (W : Type) (r : R) : GgufCandle Traced Unit W R where
  row ids := .ok (.tokens ids.length)
  dims
    | .tokens seq => [1, seq]
    | .hidden seq _ => [1, seq, 0]
    | _ => []
  narrow t _ _ _ := .ok t
  squeeze t _ := .ok t
  cat
    | .heads before, .heads after, 2 => .ok (.heads (before ++ after))
    | _, _, _ => .error "cat"
  add
    | .attended rows, .hidden seq seen => .ok (.hidden seq (seen ++ [rows]))
    | .hidden seq seen, .hidden _ _ => .ok (.hidden seq seen)
    | _, _ => .error "add"
  toU32 _ := .ok 0
  toF32 _ := .ok r
  defaultRopeFreqGlobal := r
  defaultRopeFreqSwa := r
  unitScale := r
  dequantize w := .ok w
  qMatMul w := .ok w
  rmsNorm w _ := .ok w
  scalar _ := .ok r
  rotaryEmbedding _ _ := .error "no table"
  matMul _ t := .ok t
  norm _ t := .ok t
  heads
    | .hidden seq _, _, _, _, _ => .ok (.heads (List.range seq))
    | _, _, _, _, _ => .error "reshape"
  rope
    | _, .heads positions, pos => .ok (.heads (positions.map (pos + ·)))
    | _, _, _ => .error "rope"
  normalize t _ := .ok t

/-- `glues` says whether `cat` takes the zeros of one type and the cells of another. -/
def tracedKernels (W R : Type) (glues : Bool) : CheckedKernels Traced W R where
  embed
    | _, .tokens seq => .ok (.hidden seq [])
    | _, _ => .error "embed"
  perLayerInputs _ _ h _ := .ok h
  layerInput t _ := .ok t
  maskRows cells _ pos :=
    if pos = 0 ∨ glues = true then .ok (.mask (cells.map (List.replicate pos 0 ++ ·))) else .error "dtype mismatch in cat"
  expand
    | .mask cells, _, seq, width =>
      if cells.length = seq ∧ ∀ row ∈ cells, row.length = width then .ok (.mask cells) else .error "expand"
    | _, _, _, _ => .error "expand"
  attend
    | _, .heads queries, .heads keys, _, _, none => .ok (.attended (queries.map fun p => (p, keys)))
    | _, .heads queries, .heads keys, _, _, some (.mask cells) =>
      if cells.length = queries.length ∧ ∀ row ∈ cells, row.length = keys.length then
        .ok (.attended (queries.zip (cells.map (unmasked keys))))
      else .error "broadcast_as"
    | _, _, _, _, _, _ => .error "attend"
  ffn _ t := .ok t
  ple _ t _ := .ok t
  scale _ t := .ok t
  outputAt _ t _ := .ok t

/-! ## Feeding a sequence -/

structure TracedCall where
  seq : Nat
  pos : Nat
  result : Outcome Traced

/-- A sequence in pieces of some sizes, each of which is one call. -/
def GgufModel.feed (m : GgufModel W R) (r : R) (glues : Bool) :
    List Nat → Nat → KvCaches Traced m.layers.length → List TracedCall
  | [], _, _ => []
  | seq :: sizes, pos, caches =>
    let call := m.forwardOutcome (tracedCandle W r) (tracedKernels W R glues) (.tokens seq) pos caches
    ⟨seq, pos, call.1⟩ :: m.feed r glues sizes (pos + seq) call.2

/-- The sizes of the calls with their positions. -/
def callsFrom : List Nat → Nat → List (Nat × Nat)
  | [], _ => []
  | seq :: sizes, pos => (seq, pos) :: callsFrom sizes (pos + seq)

/-- Whether a layer is meant to let a query see a key. -/
def GgufLayer.Sees (g : GgufLayer W R) (p j : Nat) : Prop := j ≤ p ∧ ∀ w, g.slidingWindow = some w → p ≤ j + w

/-- The rows of a call have all its queries, each with the keys that it is meant to see. -/
structure GgufLayer.SeesRight (g : GgufLayer W R) (seq pos : Nat) (rows : Rows) : Prop where
  queries : rows.map Prod.fst = (List.range seq).map (pos + ·)
  keys : ∀ p js, (p, js) ∈ rows → ∀ j, j ∈ js ↔ g.Sees p j

def TracedCall.Right (m : GgufModel W R) (call : TracedCall) : Prop :=
  ∃ seen, call.result = .ok (.hidden call.seq seen) ∧
    List.Forall₂ (fun g rows => g.SeesRight call.seq call.pos rows) m.layers seen

end

end Llmctl.Native
