import Llmctl.Native.Decoder

/-!
# Generations do not see each other

Any number of threads generate on one decoder; each step can fail, and a panic
poisons the lock. A generation that succeeds gives what it gives on a freshly
loaded decoder.
-/

namespace Llmctl.Native

open Async

/-! ## The decoder under threads -/

structure DecoderState (γ : Type) where
  locked : Bool
  poisoned : Bool
  served : Bool
  cache : γ

/-- Where a thread stands in `generate_streaming`. -/
inductive Stage where
  | idle
  | locked
  | reset
  | admitted
  | finished
  deriving DecidableEq

def Stage.holds : Stage → Bool
  | .locked | .reset | .admitted => true
  | .idle | .finished => false

variable {T κ ρ : Type}

namespace DecoderOp

section
variable (d : RealCandleDecoder T κ ρ)

abbrev Ans (o : DecoderOp T ρ) : Type := (DecoderSig T ρ d.model.Cache).Ans o

/-- The answer when nothing fails that need not fail. -/
def ans : (o : DecoderOp T ρ) → DecoderState d.model.Cache → o.Ans d
  | .lock, g => !g.poisoned
  | .unlock, _ | .onToken _, _ => ()
  | .resetKvCache, g => (d.model.resetKvCache g.cache).1
  | .swapServed, g => g.served
  | .encode prompt, _ => d.tokenizer.encode prompt
  | .nextTokenLogits inputIds offset, g =>
    match d.nextTokenLogits inputIds offset g.cache with
    | (.ok logits, _) => .ok logits
    | (.error e, cache) => .error (e, cache)
  | .sample state logits, _ => d.sampler.sample state logits
  | .decode tokens, _ => d.tokenizer.decode tokens

def sh : (o : DecoderOp T ρ) → o.Ans d → DecoderState d.model.Cache → DecoderState d.model.Cache
  | .lock, sound, g => { g with locked := sound }
  | .unlock, _, g => { g with locked := false }
  | .resetKvCache, _, g => { g with cache := (d.model.resetKvCache g.cache).2 }
  | .swapServed, _, g => { g with served := true }
  | .nextTokenLogits _ _, .error (_, cache), g => { g with cache }
  | .nextTokenLogits inputIds offset, .ok _, g => { g with cache := (d.nextTokenLogits inputIds offset g.cache).2 }
  | _, _, g => g

/-- Where the right answer is not an error, an error may come instead. -/
def can [DecidableEq T] [DecidableEq ρ] : (o : DecoderOp T ρ) → o.Ans d → DecoderState d.model.Cache → Bool
  | .lock, sound, g => !g.locked && sound == !g.poisoned
  | .resetKvCache, reset, g => reset == (d.model.resetKvCache g.cache).1
  | .swapServed, served, g => served == g.served
  | .encode prompt, .ok ids, _ => decide (d.tokenizer.encode prompt = .ok ids)
  | .nextTokenLogits inputIds offset, .ok logits, g =>
    decide ((d.nextTokenLogits inputIds offset g.cache).1 = .ok logits)
  | .sample state logits, .ok next, _ => decide (d.sampler.sample state logits = .ok next)
  | .decode tokens, .ok text, _ => decide (d.tokenizer.decode tokens = .ok text)
  | _, _, _ => true

def loc : (o : DecoderOp T ρ) → o.Ans d → Stage → Stage
  | .lock, sound, _ => if sound then .locked else .finished
  | .resetKvCache, _, _ => .reset
  | .swapServed, _, _ => .admitted
  | .unlock, _, _ => .finished
  | _, _, s => s

end

def fault {γ : Type} : (o : DecoderOp T ρ) → (DecoderSig T ρ γ).Ans o → Bool
  | .encode _, .error _ | .nextTokenLogits _ _, .error _ | .sample _ _, .error _ | .decode _, .error _ => true
  | _, _ => false

def Generates : DecoderOp T ρ → Prop
  | .encode _ | .nextTokenLogits .. | .sample .. | .decode _ | .onToken _ => True
  | _ => False

end DecoderOp

/-- A panic unlocks the mutex and poisons it. -/
def panicked {γ : Type} (s : Stage) (g : DecoderState γ) : DecoderState γ :=
  if s.holds then { g with locked := false, poisoned := true } else g

section
variable [DecidableEq T] [DecidableEq ρ] (ι : Type) (d : RealCandleDecoder T κ ρ)

def decoderWorld : World (DecoderSig T ρ d.model.Cache) ι Stage (DecoderState d.model.Cache) Empty where
  can _ o a _ g := o.can d a g
  loc _ o a s := o.loc d a s
  sh _ o a _ g := o.sh d a g
  canDrop _ _ := true
  dropLoc _ _ _ := .finished
  dropSh _ _ s g := panicked s g
  canEnv e _ := e.elim
  env e _ := e.elim

end

section
variable (d : RealCandleDecoder T κ ρ)

def freshState : DecoderState d.model.Cache := ⟨false, false, false, d.model.loaded⟩

abbrev DecoderConf (ι : Type) :=
  Conf (DecoderSig T ρ d.model.Cache) (Result NativeGeneration) ι Stage (DecoderState d.model.Cache)

def decoderStart {ι : Type} (requests : ι → NativeChatRequest) : DecoderConf d ι where
  prog i := some (generateStreaming d (requests i))
  loc _ := .idle
  sh := freshState d

def evalFrom {α : Type} (p : DecoderProg d α) (g : DecoderState d.model.Cache) : α :=
  (p.eval (DecoderOp.ans d) (DecoderOp.sh d) g).1

def generateFresh (request : NativeChatRequest) : Result NativeGeneration :=
  evalFrom d (generateStreaming d request) (freshState d)

/-- `clear_kv_cache` of a candle model empties its cache. -/
def ClearsKvCache : RealCandleModel T κ → Prop
  | .qwen3 model | .qwen3Gguf model | .deepSeek2 model | .gemma3 model | .mistral model =>
    ∀ cache, model.clearKvCache cache = model.loaded
  | .qwen3MoeGguf _ | .mistralGguf _ | .gemma4Gguf _ => True

theorem reset_cleared {m : RealCandleModel T κ} (h : ClearsKvCache m) (cache : m.Cache)
    (hc : (m.resetKvCache cache).1 = .cleared) : (m.resetKvCache cache).2 = m.loaded := by
  cases m with
  | qwen3MoeGguf | mistralGguf => cases hc
  | gemma4Gguf => rfl
  | _ => exact h cache

theorem reset_retained {m : RealCandleModel T κ} (cache : m.Cache) (hr : (m.resetKvCache cache).1 = .retained) :
    (m.resetKvCache cache).2 = cache := by
  cases m with
  | qwen3MoeGguf | mistralGguf => rfl
  | _ => cases hr

theorem reset_loaded {m : RealCandleModel T κ} (h : ClearsKvCache m) : (m.resetKvCache m.loaded).2 = m.loaded := by
  cases hr : (m.resetKvCache m.loaded).1 with
  | cleared => exact reset_cleared h _ hr
  | retained => exact reset_retained _ hr

end

/-! ## Generations fail with their steps -/

section
variable {γ α β ε : Type}

def IsError (r : Except ε α) : Prop := ∃ e, r = .error e

theorem andThen_strict {p : Prog (DecoderSig T ρ γ) (Except ε α)} {f : α → Prog (DecoderSig T ρ γ) (Result β)}
    {err : ε → String} (hp : p.Strict DecoderOp.fault IsError) (hf : ∀ a, (f a).Strict DecoderOp.fault IsError) :
    (andThen p f err).Strict DecoderOp.fault IsError := by
  apply hp.bind
  · intro r hr
    obtain ⟨e, rfl⟩ := hr
    exact ⟨_, rfl⟩
  · intro r
    cases r with
    | ok a => exact hf a
    | error e => trivial

theorem andThen_generates {p : Prog (DecoderSig T ρ γ) (Except ε α)} {f : α → Prog (DecoderSig T ρ γ) (Result β)}
    {err : ε → String} (hp : p.All DecoderOp.Generates) (hf : ∀ a, (f a).All DecoderOp.Generates) :
    (andThen p f err).All DecoderOp.Generates := by
  apply hp.bind
  intro r
  cases r with
  | ok a => exact hf a
  | error e => trivial

end

section
variable (d : RealCandleDecoder T κ ρ)

structure Faithful {α : Type} (p : DecoderProg d (Result α)) : Prop where
  strict : p.Strict DecoderOp.fault IsError
  generates : p.All DecoderOp.Generates

variable {d}

theorem Faithful.done {α : Type} (r : Result α) : Faithful d (.done r) := ⟨trivial, trivial⟩

theorem Faithful.andThen {α β ε : Type} {p : DecoderProg d (Except ε α)} {f : α → DecoderProg d (Result β)}
    {err : ε → String} (hp : p.Strict DecoderOp.fault IsError ∧ p.All DecoderOp.Generates)
    (hf : ∀ a, Faithful d (f a)) : Faithful d (andThen p f err) :=
  ⟨andThen_strict hp.1 fun a => (hf a).strict, andThen_generates hp.2 fun a => (hf a).generates⟩

theorem Faithful.both {α : Type} {p : DecoderProg d (Result α)} (h : Faithful d p) :
    p.Strict DecoderOp.fault IsError ∧ p.All DecoderOp.Generates := ⟨h.strict, h.generates⟩

theorem op_faithful {o : DecoderOp T ρ} {α ε : Type} {f : (DecoderSig T ρ d.model.Cache).Ans o → Except ε α}
    (hgen : o.Generates) (hfault : ∀ a, DecoderOp.fault o a = true → IsError (f a)) :
    (Prog.call o fun a => .done (f a) : DecoderProg d (Except ε α)).Strict DecoderOp.fault IsError ∧
      (Prog.call o fun a => .done (f a) : DecoderProg d (Except ε α)).All DecoderOp.Generates := by
  refine ⟨fun a => ?_, hgen, fun _ => trivial⟩
  by_cases h : DecoderOp.fault o a = true
  · rw [if_pos h]; exact hfault a h
  · rw [if_neg h]; trivial

theorem decode_faithful (tokens : List Nat) :
    (Prog.op (S := DecoderSig T ρ d.model.Cache) (.decode tokens)).Strict DecoderOp.fault IsError ∧
      (Prog.op (S := DecoderSig T ρ d.model.Cache) (.decode tokens)).All DecoderOp.Generates :=
  op_faithful (d := d) (o := .decode tokens) (f := id) trivial fun a h => by
    cases a with
    | ok _ => cases h
    | error e => exact ⟨e, rfl⟩

theorem flushDelta_faithful (stop : List String) (generated : List Nat) (emitted : Nat) :
    Faithful d (flushDelta d stop generated emitted) := by
  refine .andThen (decode_faithful generated) fun full => ?_
  dsimp only
  by_cases h : emitted < (visibleText stop full).length
  · rw [if_pos h]
    refine ⟨fun a => ?_, trivial, fun _ => trivial⟩
    rw [if_neg (by simp [DecoderOp.fault])]
    trivial
  · rw [if_neg h]
    exact .done _

theorem decodeStep_faithful (stop : List String) (st : Generating ρ) (input : List Nat) :
    Faithful d (decodeStep d stop st input) := by
  refine .andThen ?_ fun logits => .andThen ?_ fun next => ?_
  · exact op_faithful (d := d) (o := .nextTokenLogits input st.offset) (f := id) trivial fun a h => by
      cases a with
      | ok _ => cases h
      | error e => exact ⟨e, rfl⟩
  · exact op_faithful (d := d) (o := .sample st.sampler logits) (f := id) trivial fun a h => by
      cases a with
      | ok _ => cases h
      | error e => exact ⟨e, rfl⟩
  · dsimp only
    split
    · exact .done _
    · exact .andThen (flushDelta_faithful stop _ _).both fun _ => .done _

theorem generateLoop_faithful (stop : List String) (steps : Nat) (st : Generating ρ) :
    Faithful d (generateLoop d stop steps st) := by
  induction steps generalizing st with
  | zero => exact .done _
  | succ steps ih =>
    rw [generateLoop]
    split
    · exact .done _
    · exact .andThen (decodeStep_faithful stop st _).both fun st => ih st

theorem generateSession_faithful (request : NativeChatRequest) : Faithful d (generateSession d request) := by
  refine .andThen ?_ fun ids => ?_
  · exact op_faithful (d := d) (o := .encode _) (f := id) trivial fun a h => by
      cases a with
      | ok _ => cases h
      | error e => exact ⟨e, rfl⟩
  · dsimp only
    split
    · exact .done _
    · exact .andThen (decodeStep_faithful _ _ _).both fun st => .andThen (generateLoop_faithful _ _ st).both
        fun st => .andThen (decode_faithful _) fun _ => .done _

end

/-! ## What a thread is about to do -/

section
variable (d : RealCandleDecoder T κ ρ) (request : NativeChatRequest)

def finish (result : Result NativeGeneration) : DecoderProg d (Result NativeGeneration) :=
  .call .unlock fun _ => .done result

def generateReset (reset : KvCacheReset) : DecoderProg d (Result NativeGeneration) :=
  andThen (admitFreshKvSession d reset) (fun _ => generateSession d request) id

def generateAdmitted (reset : KvCacheReset) (served : Bool) : DecoderProg d (Result NativeGeneration) :=
  if reset = .retained ∧ served = true then .done (.error retainedState) else generateSession d request

theorem generateStreaming_eq : generateStreaming d request =
    .call .lock fun sound => if sound = true then generateLocked d request >>= finish d else .done (.error lockPoisoned) :=
  rfl

theorem generateLocked_eq :
    generateLocked d request >>= finish d = .call .resetKvCache fun reset => generateReset d request reset >>= finish d :=
  rfl

theorem generateReset_eq (reset : KvCacheReset) : generateReset d request reset >>= finish d =
    .call .swapServed fun served => generateAdmitted d request reset served >>= finish d := by
  have hk : ∀ served : Bool, andThen (if reset = .retained ∧ served = true then .done (.error retainedState)
      else .done (.ok ()) : DecoderProg d (Result Unit)) (fun _ => generateSession d request) id =
        generateAdmitted d request reset served := by
    intro served
    by_cases h : reset = .retained ∧ served = true
    · rw [if_pos h, generateAdmitted, if_pos h]; rfl
    · rw [if_neg h, generateAdmitted, if_neg h]; rfl
  exact congrArg (Prog.call DecoderOp.swapServed) (funext fun served => congrArg (· >>= finish d) (hk served))

variable {d}

theorem generateFresh_eq (h : ClearsKvCache d.model) :
    generateFresh d request = evalFrom d (generateSession d request) ⟨true, false, true, d.model.loaded⟩ := by
  have hreset := reset_loaded h
  have hadmitted : ∀ reset, generateAdmitted d request reset false = generateSession d request := by
    intro reset
    rw [generateAdmitted, if_neg (by simp)]
  simp only [generateFresh, evalFrom, generateStreaming_eq, generateLocked_eq, generateReset_eq, Prog.eval_call,
    DecoderOp.ans, DecoderOp.sh, freshState, Bool.not_false, if_true, hreset, hadmitted, Prog.eval_bind, finish,
    Prog.eval_done]

theorem ans_of_can [DecidableEq T] [DecidableEq ρ] {o : DecoderOp T ρ} {a : o.Ans d} {g : DecoderState d.model.Cache}
    (hgen : o.Generates) (hcan : o.can d a g = true) (hfault : DecoderOp.fault o a ≠ true) : a = o.ans d g := by
  cases o with
  | lock | unlock | resetKvCache | swapServed => exact hgen.elim
  | onToken delta => rfl
  | encode prompt =>
    cases a with
    | error e => exact absurd rfl hfault
    | ok ids => exact (of_decide_eq_true hcan).symm
  | sample state logits =>
    cases a with
    | error e => exact absurd rfl hfault
    | ok next => exact (of_decide_eq_true hcan).symm
  | decode tokens =>
    cases a with
    | error e => exact absurd rfl hfault
    | ok text => exact (of_decide_eq_true hcan).symm
  | nextTokenLogits inputIds offset =>
    cases a with
    | error e => exact absurd rfl hfault
    | ok logits =>
      have hok : (d.nextTokenLogits inputIds offset g.cache).1 = .ok logits := of_decide_eq_true hcan
      cases hr : d.nextTokenLogits inputIds offset g.cache with
      | mk r cache =>
        rw [hr] at hok
        simp only [DecoderOp.ans, hr]
        rw [show r = .ok logits from hok]

variable (d)

/-- What the program of a thread at each stage computes. -/
def Follows : Stage → DecoderProg d (Result NativeGeneration) → DecoderState d.model.Cache → Prop
  | .idle, p, _ => p = generateStreaming d request
  | .locked, p, _ => p = generateLocked d request >>= finish d
  | .reset, p, g => ∃ reset, p = generateReset d request reset >>= finish d ∧
      (reset = .cleared → g.cache = d.model.loaded)
  | .admitted, p, g => ∃ q : DecoderProg d (Result NativeGeneration), p = q >>= finish d ∧ g.served = true ∧
      q.All DecoderOp.Generates ∧ (q.Returns IsError ∨
        q.Strict DecoderOp.fault IsError ∧ evalFrom d q g = generateFresh d request)
  | .finished, p, _ => ∃ r, p = .done r ∧ ∀ gen, r = .ok gen → generateFresh d request = .ok gen

variable {d request}

theorem Follows.frame {s : Stage} {p : DecoderProg d (Result NativeGeneration)} {g g' : DecoderState d.model.Cache}
    (h : Follows d request s p g) (hs : s.holds = false) : Follows d request s p g' := by
  cases s with
  | idle => exact h
  | finished => exact h
  | _ => cases hs

end

/-! ## The invariant -/

section
variable {ι : Type} {d : RealCandleDecoder T κ ρ} {requests : ι → NativeChatRequest}

variable (d requests) in
structure Isolated (c : DecoderConf d ι) : Prop where
  alone : ∀ i j, (c.loc i).holds = true → (c.loc j).holds = true → i = j
  sound : ∀ i, (c.loc i).holds = true → c.sh.locked = true ∧ c.sh.poisoned = false
  unserved : c.sh.served = false → c.sh.cache = d.model.loaded
  follows : ∀ i p, c.prog i = some p → Follows d (requests i) (c.loc i) p c.sh

theorem isolated_start : Isolated d requests (decoderStart d requests) := by
  refine ⟨fun _ _ h => ?_, fun _ h => ?_, fun _ => rfl, fun i p hp => ?_⟩
  · cases h
  · cases h
  · cases hp
    exact rfl

variable [DecidableEq T] [DecidableEq ρ] {c : DecoderConf d ι} {i : ι} {o : DecoderOp T ρ} {a : o.Ans d}
  {k : o.Ans d → DecoderProg d (Result NativeGeneration)}

/-- While a thread holds the lock, the others do nothing. -/
theorem Isolated.others (h : Isolated d requests c) (hp : c.prog i = some (.call o k)) (hcan : o.can d a c.sh = true)
    (j : ι) (hji : j ≠ i) : (c.loc j).holds = false := by
  by_contra hj
  have hj : (c.loc j).holds = true := by simpa using hj
  have hi : (c.loc i).holds = false := by
    by_contra hi
    exact hji (h.alone j i hj (by simpa using hi))
  have hf := h.follows i _ hp
  cases hs : c.loc i with
  | idle =>
    rw [hs] at hf
    have hf : Prog.call (S := DecoderSig T ρ d.model.Cache) o k = generateStreaming d (requests i) := hf
    rw [generateStreaming_eq] at hf
    cases hf
    have hlocked := (h.sound j hj).1
    simp [DecoderOp.can, hlocked] at hcan
  | finished =>
    rw [hs] at hf
    obtain ⟨r, hr, -⟩ := hf
    cases hr
  | _ => rw [hs] at hi; cases hi

variable (d requests) in
/-- What a step of a thread leaves to itself and to the next holder of the lock. -/
structure Kept (i : ι) (s : Stage) (p : DecoderProg d (Result NativeGeneration)) (g : DecoderState d.model.Cache) :
    Prop where
  sound : s.holds = true → g.locked = true ∧ g.poisoned = false
  unserved : g.served = false → g.cache = d.model.loaded
  follows : Follows d (requests i) s p g

theorem Isolated.kept_idle (h : Isolated d requests c) (hs : c.loc i = .idle) (hp : c.prog i = some (.call o k))
    (hcan : o.can d a c.sh = true) : Kept d requests i (o.loc d a (c.loc i)) (k a) (o.sh d a c.sh) := by
  have hf := h.follows i _ hp
  rw [hs] at hf
  have hf : Prog.call (S := DecoderSig T ρ d.model.Cache) o k = generateStreaming d (requests i) := hf
  rw [generateStreaming_eq] at hf
  cases hf
  cases a with
  | true =>
    have hpoisoned : c.sh.poisoned = false := by
      have hsound : (true == !c.sh.poisoned) = true := (Bool.and_eq_true_iff.mp hcan).2
      simpa using hsound
    exact ⟨fun _ => ⟨rfl, hpoisoned⟩, h.unserved, rfl⟩
  | false =>
    refine ⟨fun hh => ?_, h.unserved, _, rfl, fun gen hgen => ?_⟩
    · cases hh
    · cases hgen

theorem Isolated.kept_locked (hclear : ClearsKvCache d.model) (h : Isolated d requests c) (hs : c.loc i = .locked)
    (hp : c.prog i = some (.call o k)) (hcan : o.can d a c.sh = true) :
    Kept d requests i (o.loc d a (c.loc i)) (k a) (o.sh d a c.sh) := by
  have hf := h.follows i _ hp
  rw [hs] at hf
  have hf : Prog.call (S := DecoderSig T ρ d.model.Cache) o k = generateLocked d (requests i) >>= finish d := hf
  rw [generateLocked_eq] at hf
  cases hf
  have ha : a = (d.model.resetKvCache c.sh.cache).1 := by simpa [DecoderOp.can] using hcan
  refine ⟨fun _ => h.sound i (by rw [hs]; rfl), fun hserved => ?_, a, rfl, fun hcleared => ?_⟩
  · have hcache := h.unserved hserved
    simp only [DecoderOp.sh]
    rw [hcache]
    exact reset_loaded hclear
  · exact reset_cleared hclear _ (ha ▸ hcleared)

theorem Isolated.kept_reset (hclear : ClearsKvCache d.model) (h : Isolated d requests c) (hs : c.loc i = .reset)
    (hp : c.prog i = some (.call o k)) (hcan : o.can d a c.sh = true) :
    Kept d requests i (o.loc d a (c.loc i)) (k a) (o.sh d a c.sh) := by
  have hf := h.follows i _ hp
  rw [hs] at hf
  obtain ⟨reset, hf, hcache⟩ := hf
  rw [generateReset_eq] at hf
  cases hf
  have ha : a = c.sh.served := by simpa [DecoderOp.can] using hcan
  obtain ⟨hlocked, hpoisoned⟩ := h.sound i (by rw [hs]; rfl)
  refine ⟨fun _ => ⟨hlocked, hpoisoned⟩, fun hserved => ?_, generateAdmitted d (requests i) reset a, rfl, rfl, ?_, ?_⟩
  · cases hserved
  · rw [generateAdmitted]
    split
    · trivial
    · exact (generateSession_faithful _).generates
  · by_cases hrefuse : reset = .retained ∧ a = true
    · left
      rw [generateAdmitted, if_pos hrefuse]
      exact ⟨_, rfl⟩
    · right
      rw [generateAdmitted, if_neg hrefuse]
      refine ⟨(generateSession_faithful _).strict, ?_⟩
      have hloaded : c.sh.cache = d.model.loaded := by
        cases reset with
        | cleared => exact hcache rfl
        | retained =>
          have hfalse : a = false := Bool.eq_false_iff.mpr fun ht => hrefuse ⟨rfl, ht⟩
          exact h.unserved (ha ▸ hfalse)
      have hstate : DecoderOp.sh d .swapServed a c.sh = ⟨true, false, true, d.model.loaded⟩ := by
        simp only [DecoderOp.sh, ← hlocked, ← hpoisoned, ← hloaded]
      rw [hstate, generateFresh_eq _ hclear]

theorem Isolated.kept_admitted (h : Isolated d requests c) (hs : c.loc i = .admitted)
    (hp : c.prog i = some (.call o k)) (hcan : o.can d a c.sh = true) :
    Kept d requests i (o.loc d a (c.loc i)) (k a) (o.sh d a c.sh) := by
  have hf := h.follows i _ hp
  rw [hs] at hf
  obtain ⟨q, hf, hserved, hgen, hq⟩ := hf
  obtain ⟨hlocked, hpoisoned⟩ := h.sound i (by rw [hs]; rfl)
  cases q with
  | done r =>
    cases hf
    refine ⟨fun hh => ?_, h.unserved, r, rfl, fun gen hr => ?_⟩
    · cases hh
    subst hr
    obtain ⟨e, he⟩ | ⟨-, heval⟩ := hq
    · cases he
    · exact heval.symm
  | call o' k' =>
    cases hf
    have hstage : o.loc d a (c.loc i) = .admitted := by
      cases o with
      | lock | unlock | resetKvCache | swapServed => exact hgen.1.elim
      | _ => exact hs
    have hsh : (o.sh d a c.sh).served = true ∧ (o.sh d a c.sh).locked = true ∧ (o.sh d a c.sh).poisoned = false := by
      cases o with
      | lock | unlock | resetKvCache | swapServed => exact hgen.1.elim
      | nextTokenLogits inputIds offset => cases a <;> exact ⟨hserved, hlocked, hpoisoned⟩
      | _ => exact ⟨hserved, hlocked, hpoisoned⟩
    rw [hstage]
    refine ⟨fun _ => hsh.2, fun hun => ?_, k' a, rfl, hsh.1, hgen.2 a, ?_⟩
    · rw [hsh.1] at hun; cases hun
    · obtain hbad | ⟨hstrict, heval⟩ := hq
      · exact .inl (hbad a)
      · have ha := hstrict a
        by_cases hfault : DecoderOp.fault o a = true
        · rw [if_pos hfault] at ha
          exact .inl ha
        · rw [if_neg hfault] at ha
          refine .inr ⟨ha, ?_⟩
          rw [← heval, ans_of_can hgen.1 hcan hfault]
          rfl

theorem Isolated.kept (hclear : ClearsKvCache d.model) (h : Isolated d requests c) (hp : c.prog i = some (.call o k))
    (hcan : o.can d a c.sh = true) : Kept d requests i (o.loc d a (c.loc i)) (k a) (o.sh d a c.sh) := by
  cases hs : c.loc i with
  | idle => rw [← hs]; exact h.kept_idle hs hp hcan
  | locked => rw [← hs]; exact h.kept_locked hclear hs hp hcan
  | reset => rw [← hs]; exact h.kept_reset hclear hs hp hcan
  | admitted => rw [← hs]; exact h.kept_admitted hs hp hcan
  | finished =>
    have hf := h.follows i _ hp
    rw [hs] at hf
    obtain ⟨r, hr, -⟩ := hf
    cases hr

variable [DecidableEq ι]

omit [DecidableEq T] [DecidableEq ρ] in
/-- The others hold no lock, so that only the stepping thread's part changes. -/
theorem Isolated.update (h : Isolated d requests c) (hothers : ∀ j, j ≠ i → (c.loc j).holds = false)
    {p : Option (DecoderProg d (Result NativeGeneration))} {s : Stage} {g : DecoderState d.model.Cache}
    (hsound : s.holds = true → g.locked = true ∧ g.poisoned = false)
    (hunserved : g.served = false → g.cache = d.model.loaded)
    (hfollows : ∀ q, p = some q → Follows d (requests i) s q g) :
    Isolated d requests ⟨Function.update c.prog i p, Function.update c.loc i s, g⟩ := by
  have hhold : ∀ j, (Function.update c.loc i s j).holds = true → j = i := by
    intro j hj
    by_contra hji
    rw [Function.update_of_ne hji, hothers j hji] at hj
    cases hj
  refine ⟨fun j j' hj hj' => (hhold j hj).trans (hhold j' hj').symm, fun j hj => ?_, hunserved, fun j q hq => ?_⟩
  · rw [hhold j hj] at hj
    exact hsound (by simpa using hj)
  · by_cases hji : j = i
    · subst hji
      simp only [Function.update_self] at hq ⊢
      exact hfollows q hq
    · simp only [Function.update_of_ne hji] at hq ⊢
      exact (h.follows j q hq).frame (hothers j hji)

omit [DecidableEq T] [DecidableEq ρ] in
theorem Isolated.leave (h : Isolated d requests c) (hi : (c.loc i).holds = false) :
    Isolated d requests ⟨Function.update c.prog i none, Function.update c.loc i .finished, c.sh⟩ := by
  have hhold : ∀ j, (Function.update c.loc i .finished j).holds = true → (c.loc j).holds = true := by
    intro j hj
    by_cases hji : j = i
    · subst hji
      rw [Function.update_self] at hj
      cases hj
    · rwa [Function.update_of_ne hji] at hj
  refine ⟨fun j j' hj hj' => h.alone j j' (hhold j hj) (hhold j' hj'), fun j hj => h.sound j (hhold j hj), h.unserved,
    fun j q hq => ?_⟩
  by_cases hji : j = i
  · subst hji
    simp only [Function.update_self] at hq
    cases hq
  · simp only [Function.update_of_ne hji] at hq ⊢
    exact h.follows j q hq

theorem Isolated.step (hclear : ClearsKvCache d.model) (h : Isolated d requests c)
    {l : Label (DecoderSig T ρ d.model.Cache) ι Empty} {c' : DecoderConf d ι} (hs : Step (decoderWorld ι d) c l c') :
    Isolated d requests c' := by
  cases hs with
  | @answer i o k a hp hcan =>
    have hk := h.kept hclear hp hcan
    refine h.update (h.others hp hcan) hk.sound hk.unserved fun q hq => ?_
    cases hq
    exact hk.follows
  | @drop i o k hp hd =>
    by_cases hi : (c.loc i).holds = true
    · have hothers : ∀ j, j ≠ i → (c.loc j).holds = false := by
        intro j hji
        by_contra hj
        exact hji (h.alone j i (by simpa using hj) hi)
      have hsh : panicked (c.loc i) c.sh = { c.sh with locked := false, poisoned := true } := if_pos hi
      simp only [decoderWorld, hsh]
      refine h.update hothers (fun hh => ?_) h.unserved (fun q hq => ?_)
      · cases hh
      · cases hq
    · have hsh : panicked (c.loc i) c.sh = c.sh := if_neg hi
      simp only [decoderWorld, hsh]
      exact h.leave (by simpa using hi)
  | @env e he => exact e.elim

end

section
variable {ι : Type} [DecidableEq ι] [DecidableEq T] [DecidableEq ρ]

/-- A generation that succeeds gives what it gives on a freshly loaded decoder,
whatever ran, failed or panicked before it. -/
theorem generateStreaming_isolated (d : RealCandleDecoder T κ ρ) (hclear : ClearsKvCache d.model)
    (requests : ι → NativeChatRequest) {c : DecoderConf d ι}
    (hr : Reach (decoderWorld ι d) (fun _ _ => True) (decoderStart d requests) c) {i : ι} {gen : NativeGeneration}
    (hi : c.prog i = some (.done (.ok gen))) : generateFresh d (requests i) = .ok gen := by
  have h : Isolated d requests c :=
    hr.invariant isolated_start fun _ _ _ h _ hs => h.step hclear hs
  have hf := h.follows i _ hi
  cases hs : c.loc i with
  | finished =>
    rw [hs] at hf
    obtain ⟨r, hr, hgen⟩ := hf
    cases hr
    exact hgen gen rfl
  | idle => rw [hs] at hf; cases hf
  | locked => rw [hs] at hf; cases hf
  | reset =>
    rw [hs] at hf
    obtain ⟨reset, hf, -⟩ := hf
    cases hf
  | admitted =>
    rw [hs] at hf
    obtain ⟨q, hf, -⟩ := hf
    cases q <;> cases hf

/-- A model whose logits are all tokens it has seen, so that a retained cache shows. -/
def echoDecoder : RealCandleDecoder (List Nat) (List Nat) Unit where
  tokenizer := { encode _ := .ok [1], decode _ := .ok "", idToToken _ := none }
  model := .qwen3 { loaded := [], forward t _ cache := (.ok (cache ++ t), cache ++ t), clearKvCache _ := [] }
  candle :=
    { row := .ok, dims t := [t.length], narrow t _ _ _ := .ok t, squeeze t _ := .ok t, cat s t _ := .ok (s ++ t),
      add s _ := .ok s }
  family := .qwen3
  bosTokenId := none
  sampler := { fromSampling _ _ := (), sample _ logits := .ok (logits.length, ()) }

def echoRequest : NativeChatRequest := { messages := [], maxTokens := some 2 }

def generatedBy (c : DecoderConf echoDecoder Bool) (i : Bool) : Option NativeGeneration :=
  match c.prog i with
  | some (.done (.ok gen)) => some gen
  | _ => none

theorem of_generated {c : DecoderConf echoDecoder Bool} {i : Bool} {gen : NativeGeneration}
    (h : generatedBy c i = some gen) : c.prog i = some (.done (.ok gen)) := by
  unfold generatedBy at h
  split at h
  · rename_i gen' hp
    cases h
    exact hp
  · cases h

/-- One call after the other, the second on the cache that the first left. -/
theorem echo_isolated : ∃ (c : DecoderConf echoDecoder Bool) (gen : NativeGeneration),
    Reach (decoderWorld Bool echoDecoder) (fun _ _ => True) (decoderStart echoDecoder fun _ => echoRequest) c ∧
      c.prog false = some (.done (.ok gen)) ∧ c.prog true = some (.done (.ok gen)) ∧
      generateFresh echoDecoder echoRequest = .ok gen := by
  let turn (i : Bool) : Choice (DecoderSig (List Nat) Unit echoDecoder.model.Cache) Bool _ Empty :=
    .answer i fun o g => some (DecoderOp.ans echoDecoder o g)
  have hrun : ∃ c, Reach (decoderWorld Bool echoDecoder) (fun _ _ => True)
      (decoderStart echoDecoder fun _ => echoRequest) c ∧
      generatedBy c false = some ⟨"", 1, 2, "length"⟩ ∧ generatedBy c true = some ⟨"", 1, 2, "length"⟩ :=
    Conf.exists_reach (List.replicate 12 (turn false) ++ List.replicate 12 (turn true)) (by decide)
  obtain ⟨c, hr, hfalse, htrue⟩ := hrun
  exact ⟨c, _, hr, of_generated hfalse, of_generated htrue,
    generateStreaming_isolated echoDecoder (fun _ => rfl) (fun _ => echoRequest) hr (of_generated htrue)⟩

end

end Llmctl.Native
