import Llmctl.Server.Script
import Llmctl.Traffic.ControllerSound

/-!
# The limits that principals compute

Each request computes the limits of its scopes from the policies that match its own
principal, but a tracked semaphore keeps the limit of the request that made it.
-/

namespace Llmctl

theorem insertScope_pos {scope : String} {limit : Nat} (hl : 0 < limit) : ∀ {scopes : List (String × Nat)},
    (∀ e ∈ scopes, 0 < e.2) → ∀ e ∈ insertScope scope limit scopes, 0 < e.2
  | [], _, e, he => by
    rw [List.mem_singleton.mp he]
    exact hl
  | x :: scopes, hpos, e, he => by
    obtain ⟨hx, hrest⟩ := List.forall_mem_cons.mp hpos
    unfold insertScope at he
    split at he
    · cases he with
      | head => exact lt_min hx hl
      | tail _ he => exact hrest e he
    · split at he
      · cases he with
        | head => exact hl
        | tail _ he => exact hpos e he
      · cases he with
        | head => exact hx
        | tail _ he => exact insertScope_pos hl hrest e he

theorem quotaAdmissionScopes_pos (cfg : Config) (principal : Principal) :
    ∀ e ∈ quotaAdmissionScopes cfg principal, 0 < e.2 := by
  have hfold : ∀ (quotas : List QuotaConfig) (scopes : List (String × Nat)), (∀ e ∈ scopes, 0 < e.2) →
      ∀ e ∈ quotas.foldl (fun scopes q => if q.maxConcurrency = 0 then scopes
        else insertScope (admissionScope q principal) q.maxConcurrency scopes) scopes, 0 < e.2 := by
    intro quotas
    induction quotas with
    | nil => exact fun scopes hpos => hpos
    | cons q quotas ih =>
      intro scopes hpos
      apply ih
      simp only
      split
      · exact hpos
      · exact insertScope_pos (by omega) hpos
  exact hfold _ [] nofun

end Llmctl

namespace Llmctl.Admission

open Async

/-! ## What a call has looked up -/

section
variable {ι : Type} [DecidableEq ι] {loc : ι → Owns} {g g' : Controller ι} {i : ι} {l : Owns}
  {scopes : ι → List (String × Nat)}

/-- The semaphores that calls have looked up are of the scopes they asked for and made
for no larger a limit; a live permit has one of each of its call's scopes. -/
structure Looked (scopes : ι → List (String × Nat)) (loc : ι → Owns) (g : Controller ι) : Prop where
  made : ∀ i, ∀ e ∈ (loc i).got, g.scopes.names[e.1]? = some e.2.1 ∧ g.limits e.1 ≤ max e.2.2 1
  live : ∀ i sems, g.live i = some sems →
    (loc i).returned = true ∧ sems = (loc i).got.map (·.1) ∧ (loc i).got.map (·.2) = scopes i

theorem Looked.keep (h : Looked scopes loc g) (hgot : l.got = (loc i).got) (hret : l.returned = (loc i).returned)
    (hnames : g'.scopes.names = g.scopes.names) (hlimits : g'.limits = g.limits) (hlive : g'.live = g.live) :
    Looked scopes (Function.update loc i l) g' := by
  have hsame : ∀ j, (Function.update loc i l j).got = (loc j).got ∧
      (Function.update loc i l j).returned = (loc j).returned := by
    intro j
    by_cases hji : j = i
    · subst hji
      rw [Function.update_self]
      exact ⟨hgot, hret⟩
    · rw [Function.update_of_ne hji]
      exact ⟨rfl, rfl⟩
  constructor
  · intro j e he
    rw [(hsame j).1] at he
    rw [hnames, hlimits]
    exact h.made j e he
  · intro j sems hj
    rw [hlive] at hj
    rw [(hsame j).1, (hsame j).2]
    exact h.live j sems hj

/-- An entry that is found was made for no larger a limit. -/
def FoundWithin (g : Controller ι) : (o : AdmissionOp ι) → Prop
  | .entry scope limit => ∀ s ∈ g.scopes.find scope, g.limits s ≤ max limit 1
  | _ => True

instance (g : Controller ι) (o : AdmissionOp ι) : Decidable (FoundWithin g o) :=
  match o with
  | .entry scope limit => inferInstanceAs (Decidable (∀ s ∈ g.scopes.find scope, g.limits s ≤ max limit 1))
  | .tryGlobal | .lockScopes | .retain | .unlockScopes | .tryAcquire _ | .addPermit _ | .dropArc _ | .addGlobal
  | .handOut _ | .take _ => .isTrue trivial

omit [DecidableEq ι] in
/-- The semaphore that an entry answers with is of its scope and limit. -/
theorem entrySh_made (hsound : g.scopes.Sound) {scope : String} {limit : Nat}
    (hfound : FoundWithin g (.entry scope limit)) :
    (AdmissionOp.entrySh scope limit g).scopes.names[(g.scopes.entry scope).1]? = some scope ∧
      (AdmissionOp.entrySh scope limit g).limits (g.scopes.entry scope).1 ≤ max limit 1 := by
  have hname := hsound.entry_name scope
  unfold AdmissionOp.entrySh
  cases hf : g.scopes.find scope with
  | some s =>
    refine ⟨hname, ?_⟩
    have hentry : (g.scopes.entry scope).1 = s := by
      unfold Registry.entry
      rw [hf]
    rw [hentry]
    exact hfound s hf
  | none => exact ⟨hname, by simp⟩

theorem looked_entry (h : Looked scopes loc g) (hsound : g.scopes.Sound) {scope : String} {limit : Nat}
    (hret : (loc i).returned = false) (hfound : FoundWithin g (.entry scope limit)) {sem : Nat}
    (hsem : sem = (g.scopes.entry scope).1) :
    Looked scopes
      (Function.update loc i { loc i with arcs := sem :: (loc i).arcs, got := (loc i).got ++ [(sem, scope, limit)] })
      (AdmissionOp.entrySh scope limit g) := by
  have hold : ∀ e : Nat × String × Nat, g.scopes.names[e.1]? = some e.2.1 ∧ g.limits e.1 ≤ max e.2.2 1 →
      (AdmissionOp.entrySh scope limit g).scopes.names[e.1]? = some e.2.1 ∧
        (AdmissionOp.entrySh scope limit g).limits e.1 ≤ max e.2.2 1 := by
    intro e he
    have hsame := (@entrySh_limits ι g scope limit).1 e.1 (List.getElem?_eq_some_iff.mp he.1).1
    rwa [hsame.1, hsame.2]
  have hlive : (AdmissionOp.entrySh scope limit g).live = g.live := by
    unfold AdmissionOp.entrySh
    simp only
    split <;> rfl
  constructor
  · intro j e he
    by_cases hji : j = i
    · subst hji
      simp only [Function.update_self, List.mem_append, List.mem_singleton] at he
      rcases he with he | rfl
      · exact hold e (h.made j e he)
      · rw [hsem]
        exact entrySh_made hsound hfound
    · rw [Function.update_of_ne hji] at he
      exact hold e (h.made j e he)
  · intro j sems hj
    rw [hlive] at hj
    by_cases hji : j = i
    · subst hji
      rw [(h.live j sems hj).1] at hret
      cases hret
    · rw [Function.update_of_ne hji]
      exact h.live j sems hj

theorem looked_answer (h : Looked scopes loc g) (hsound : g.scopes.Sound) {o : AdmissionOp ι}
    {a : (AdmissionSig ι).Ans o} (hΦ : Owning (scopes i) o (loc i)) (hc : o.can g a = true) (hfound : FoundWithin g o) :
    Looked scopes (Function.update loc i (o.loc a (loc i))) (o.sh i a g) := by
  cases o with
  | tryGlobal => cases a <;> exact h.keep rfl rfl rfl rfl rfl
  | lockScopes => cases a <;> exact h.keep rfl rfl rfl rfl rfl
  | entry scope limit =>
    cases a with
    | none => exact h.keep rfl rfl rfl rfl rfl
    | some sem =>
      refine looked_entry h hsound hΦ.2 hfound ?_
      simp only [AdmissionOp.can] at hc
      split at hc
      · simp at hc
      · simpa using hc
  | tryAcquire sem => cases a <;> exact h.keep rfl rfl rfl rfl rfl
  | handOut sems =>
    constructor
    · intro j e he
      refine h.made j e ?_
      by_cases hji : j = i
      · subst hji
        rwa [Function.update_self] at he
      · rwa [Function.update_of_ne hji] at he
    · intro j sems' hj
      by_cases hji : j = i
      · subst hji
        simp only [AdmissionOp.sh, Function.update_self, Option.some.injEq] at hj ⊢
        exact ⟨rfl, hj ▸ hΦ.2.1, hΦ.2.2⟩
      · simp only [AdmissionOp.sh, Function.update_of_ne hji] at hj ⊢
        exact h.live j sems' hj
  | take permit =>
    refine Looked.keep (g := { g with live := Function.update g.live permit none }) ⟨h.made, ?_⟩ rfl rfl rfl rfl rfl
    intro j sems hj
    simp only [Function.update_apply] at hj
    split at hj
    · cases hj
    · exact h.live j sems hj
  | _ => exact h.keep rfl rfl rfl rfl rfl

end

/-! ## Runs -/

/-- A chat request's call for its quotas, or the drop of a permit. -/
inductive QuotaCall (ι : Type) where
  | request (principal : Principal)
  | dropPermit (permit : ι)

def QuotaCall.call {ι : Type} (cfg : Config) : QuotaCall ι → AdmissionCall ι
  | .request principal => .tryAcquireForAll (quotaAdmissionScopes cfg principal)
  | .dropPermit permit => .dropPermit permit

/-- No call finds a semaphore that was made for a larger limit than its own. -/
def LimitFits {ι : Type} (c : AdmissionConf ι) : Label (AdmissionSig ι) ι Empty → Prop
  | .answer _ o _ => FoundWithin c.sh o
  | _ => True

instance {ι : Type} (c : AdmissionConf ι) (l : Label (AdmissionSig ι) ι Empty) : Decidable (LimitFits c l) :=
  match l with
  | .answer _ o _ => inferInstanceAs (Decidable (FoundWithin c.sh o))
  | .drop _ | .env _ => .isTrue trivial

section
variable {ι : Type} [DecidableEq ι] [Fintype ι]

/-- Every live permit was given within the limits that its own principal computes. -/
theorem scopes_within_limits (cfg : Config) (maxInFlight : Nat) (calls : ι → QuotaCall ι) {c : AdmissionConf ι}
    (hr : Reach (admissionWorld ι) LimitFits (admissionStart maxInFlight fun i => (calls i).call cfg) c)
    {i : ι} {principal : Principal} (hi : calls i = .request principal) (hlive : c.sh.live i ≠ none) :
    ∀ e ∈ quotaAdmissionScopes cfg principal, c.livePermits e.1 ≤ e.2 := by
  intro e he
  have hheld := (held_reach hr).1
  have hlooked : Looked (fun i => ((calls i).call cfg).scopes) c.loc c.sh := by
    have hstart := held_reach (Reach.refl : Reach (admissionWorld ι) LimitFits (admissionStart maxInFlight fun i => (calls i).call cfg) _)
    have hkeep := (admissionStart_typed maxInFlight fun i => (calls i).call cfg).pool
      (J := fun loc g => (Held maxInFlight loc g ∧ Returned loc g) ∧
        Looked (fun i => ((calls i).call cfg).scopes) loc g) ⟨hstart, nofun, nofun⟩
      (fun c i o a h hΦ hok hc => ⟨⟨held_answer h.1.1 h.1.2 hΦ hc, returned_answer h.1.2⟩,
        looked_answer h.2 h.1.1.sound hΦ hc hok⟩) (fun _ _ _ _ _ _ hd => by cases hd) (fun _ e => e.elim) hr
    exact hkeep.2
  obtain ⟨sems, hsems⟩ := Option.ne_none_iff_exists'.mp hlive
  obtain ⟨_, hpermit, hscopes⟩ := hlooked.live i sems hsems
  simp only [hi, QuotaCall.call, AdmissionCall.scopes] at hscopes
  rw [← hscopes] at he
  obtain ⟨⟨s, scope, limit⟩, hgot, rfl⟩ := List.mem_map.mp he
  obtain ⟨hname, hlimit⟩ := hlooked.made i _ hgot
  have hpos : 0 < total (Owns.permitsOn s) c.loc c.sh.live := by
    have hmem : s ∈ sems := hpermit ▸ List.mem_map.mpr ⟨_, hgot, rfl⟩
    have hone : 0 < Owns.permitsOn s (.live (c.sh.live i)) := by
      rw [hsems]
      exact List.count_pos_iff.mpr hmem
    have hle := le_sum (fun x => Owns.permitsOn s (.live x)) c.sh.live i
    unfold total
    omega
  have hfind : c.sh.scopes.find scope = some s := hheld.sound.find_of_refs (hheld.refs_pos hpos) hname
  have hlim : 0 < limit := quotaAdmissionScopes_pos cfg principal (scope, limit) (hscopes ▸ he)
  have hpermits := hheld.permits s
  unfold AdmissionConf.livePermits
  rw [hheld.permitsIn_eq, hfind]
  simp only at hlimit ⊢
  omega

end

def alice : Principal := ⟨"alice", "platform", ["chat"], none, none, none, none⟩

def bob : Principal := ⟨"bob", "platform", ["chat"], none, none, none, none⟩

/-- The team may have two requests under way; the second policy counts Alice's own, but
for the others of her team the team's. -/
def aliceLimited : Config :=
  { oneModel with quotas := [⟨"", "platform", 0, 0, 2, []⟩, ⟨"alice", "platform", 0, 0, 1, []⟩] }

def aliceAndBob : Bool → QuotaCall Bool
  | true => .request alice
  | false => .request bob

/-- Bob's semaphore allows one permit, and Alice does not get past it. -/
theorem scopes_within_limits_bob : ∃ c : AdmissionConf Bool, c.sh.live false ≠ none ∧
    c.result true = some .busy ∧ c.livePermits "team:platform" ≤ 1 := by
  have hrun : ∃ c : AdmissionConf Bool,
      Reach (admissionWorld Bool) LimitFits (admissionStart 4 fun i => (aliceAndBob i).call aliceLimited) c ∧
        c.sh.live false ≠ none ∧ c.result true = some .busy :=
    Conf.exists_reach (turns false 7 ++ turns true 15) (by decide)
  obtain ⟨c, hr, hlive, hbusy⟩ := hrun
  exact ⟨c, hlive, hbusy, scopes_within_limits aliceLimited 4 aliceAndBob hr rfl hlive ("team:platform", 1) (by decide)⟩

/-- Alice comes first, and her limit for the team stands for Bob. -/
theorem first_limit_stands : ∃ c : AdmissionConf Bool,
    Reach (admissionWorld Bool) (fun _ _ => True) (admissionStart 4 fun i => (aliceAndBob i).call aliceLimited) c ∧
      c.result false = some .admitted ∧ ("team:platform", 1) ∈ quotaAdmissionScopes aliceLimited bob ∧
      c.livePermits "team:platform" = 2 :=
  Conf.exists_reach (turns true 12 ++ turns false 7) (by decide)

end Llmctl.Admission
