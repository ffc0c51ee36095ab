import Llmctl.Store.DatabaseSound

/-!
# What audit retention keeps

Audit events leave the table by deletions alone, and each deletion says how old they have
to be. Whatever calls other clients make in between, an audit event is read in its windows
exactly when it was accepted and no deletion since then asked for its time.
-/

namespace Llmctl.Tables

open Calendar List

/-! ## The order of a window -/

section
variable {U C : Type} [LinearOrder U]

instance : Std.Total (@Record.Before U C _) where
  total left right := by
    unfold Record.Before
    obtain hlt | heq | hgt := Instant.lt_trichotomy left.at_ right.at_
    · exact .inl (.inl hlt)
    · by_cases hid : left.id ≤ right.id
      · exact .inl (.inr ⟨heq, hid⟩)
      · exact .inr (.inr ⟨heq.symm, le_of_not_ge hid⟩)
    · exact .inr (.inl hgt)

instance : IsTrans (Record U C) Record.Before where
  trans a b c hab hbc := by
    unfold Record.Before at *
    cases hab with
    | inl hlt =>
      cases hbc with
      | inl hlt' =>
        simp only [Instant.lt_def] at *
        omega
      | inr heq' => exact .inl (heq'.1 ▸ hlt)
    | inr heq =>
      cases hbc with
      | inl hlt' => exact .inl (heq.1 ▸ hlt')
      | inr heq' => exact .inr ⟨heq.1.trans heq'.1, heq.2.trans heq'.2⟩

end

section
variable {U J F : Type} [LinearOrder U] (isNan : F → Bool) (dialect : SqlDialect)

/-! ## One call -/

/-- A call leaves the audit events alone, adds one with a new id, or deletes the old ones. -/
inductive AuditStep (log : EventLog U J F) (call : StorageCall U J F) : Prop where
  | stays (hevents : (log.call isNan dialect call).2.auditEvents = log.auditEvents)
      (hrefused : ∀ event, call = .insertAuditEvent event → (log.call isNan dialect call).1 ≠ .ok .done)
      (hdelete : ∀ cutoff, call ≠ .deleteAuditEventsBefore cutoff)
  | accepts (event : Record U (AuditColumns U J)) (hcall : call = .insertAuditEvent event)
      (hdone : (log.call isNan dialect call).1 = .ok .done) (hnew : ∀ old ∈ log.auditEvents, old.id ≠ event.id)
      (hevents : (log.call isNan dialect call).2.auditEvents = log.auditEvents ++ [event])
  | deletes (cutoff : Instant) (hcall : call = .deleteAuditEventsBefore cutoff)
      (hevents : (log.call isNan dialect call).2.auditEvents = log.auditEvents.filter fun event => !decide (event.at_ < cutoff))

theorem auditStep (log : EventLog U J F) (call : StorageCall U J F) : AuditStep isNan dialect log call := by
  cases call with
  | insertAuditEvent event =>
    cases hrefusal : auditRefusal dialect event.columns with
    | some err =>
      apply AuditStep.stays
      · simp [EventLog.call, logEvent, hrefusal]
      · simp [EventLog.call, logEvent, hrefusal, Except.map]
      · simp
    | none =>
      by_cases hdup : (log.auditEvents.any fun old => old.id == event.id) = true
      · apply AuditStep.stays
        · simp only [EventLog.call, logEvent, hrefusal, hdup, if_true]
        · simp [EventLog.call, logEvent, hrefusal, hdup, Except.map]
        · simp
      · apply AuditStep.accepts event rfl
        · simp [EventLog.call, logEvent, hrefusal, hdup, Except.map]
        · simpa using hdup
        · simp [EventLog.call, logEvent, hrefusal, hdup]
  | deleteAuditEventsBefore cutoff => exact .deletes cutoff rfl rfl
  | _ =>
    apply AuditStep.stays
    · rfl
    · simp
    · simp

/-! ## Runs -/

/-- The event was accepted in these calls, and no later deletion reached it. -/
def Survives (log : EventLog U J F) (calls : List (StorageCall U J F)) (event : Record U (AuditColumns U J)) : Prop :=
  ∃ before after, calls = before ++ .insertAuditEvent event :: after ∧
    ((Related.answers (EventLog.call isNan dialect) log before).2.call isNan dialect (.insertAuditEvent event)).1 = .ok .done ∧
    ∀ cutoff, .deleteAuditEventsBefore cutoff ∈ after → ¬event.at_ < cutoff

theorem survives_cons (log : EventLog U J F) (call : StorageCall U J F) (calls : List (StorageCall U J F))
    (event : Record U (AuditColumns U J)) : Survives isNan dialect log (call :: calls) event ↔
      (call = .insertAuditEvent event ∧ (log.call isNan dialect call).1 = .ok .done ∧
        ∀ cutoff, .deleteAuditEventsBefore cutoff ∈ calls → ¬event.at_ < cutoff) ∨
      Survives isNan dialect (log.call isNan dialect call).2 calls event := by
  constructor
  · intro hsurvives
    obtain ⟨before, after, heq, hdone, hafter⟩ := hsurvives
    cases before with
    | nil =>
      obtain ⟨rfl, rfl⟩ := cons.inj heq
      exact .inl ⟨rfl, hdone, hafter⟩
    | cons first before =>
      obtain ⟨rfl, rfl⟩ := cons.inj heq
      exact .inr ⟨before, after, rfl, hdone, hafter⟩
  · intro hcases
    cases hcases with
    | inl hfirst =>
      obtain ⟨rfl, hdone, hafter⟩ := hfirst
      exact ⟨[], calls, rfl, hdone, hafter⟩
    | inr hrest =>
      obtain ⟨before, after, rfl, hdone, hafter⟩ := hrest
      exact ⟨call :: before, after, rfl, hdone, hafter⟩

/-- The audit events after a run: those of before that no deletion reached, and those
that survive it. -/
theorem mem_auditEvents (event : Record U (AuditColumns U J)) : ∀ (calls : List (StorageCall U J F)) (log : EventLog U J F),
    event ∈ (Related.answers (EventLog.call isNan dialect) log calls).2.auditEvents ↔
      (event ∈ log.auditEvents ∧ ∀ cutoff, .deleteAuditEventsBefore cutoff ∈ calls → ¬event.at_ < cutoff) ∨
        Survives isNan dialect log calls event := by
  intro calls
  induction calls with
  | nil => simp [Related.answers, Survives]
  | cons call calls ih =>
    intro log
    rw [Related.answers_cons, ih, survives_cons]
    cases auditStep isNan dialect log call with
    | stays hevents hrefused hdelete =>
      have hfirst : ∀ cutoff, .deleteAuditEventsBefore cutoff ≠ call := fun cutoff heq => hdelete cutoff heq.symm
      have hnot : ¬(call = .insertAuditEvent event ∧ (log.call isNan dialect call).1 = .ok .done ∧
          ∀ cutoff, .deleteAuditEventsBefore cutoff ∈ calls → ¬event.at_ < cutoff) :=
        fun haccepted => hrefused event haccepted.1 haccepted.2.1
      simp [hevents, hfirst, hnot]
    | accepts new hcall hdone hnew hevents =>
      rw [hcall] at hdone hevents ⊢
      have hinsert : (StorageCall.insertAuditEvent new : StorageCall U J F) = .insertAuditEvent event ↔ event = new := by
        simp [eq_comm]
      have hlater : (∀ cutoff, .deleteAuditEventsBefore cutoff ∈ StorageCall.insertAuditEvent new :: calls → ¬event.at_ < cutoff) ↔
          ∀ cutoff, .deleteAuditEventsBefore cutoff ∈ calls → ¬event.at_ < cutoff := by simp
      rw [hevents, mem_append, mem_singleton, hinsert, hlater]
      tauto
    | deletes cutoff hcall hevents =>
      rw [hcall] at hevents ⊢
      have hlater : (∀ later, .deleteAuditEventsBefore later ∈ StorageCall.deleteAuditEventsBefore cutoff :: calls →
          ¬event.at_ < later) ↔ ¬event.at_ < cutoff ∧ ∀ later, .deleteAuditEventsBefore later ∈ calls → ¬event.at_ < later := by
        simp
      have hkept : event ∈ log.auditEvents.filter (fun event => !decide (event.at_ < cutoff)) ↔
          event ∈ log.auditEvents ∧ ¬event.at_ < cutoff := by simp
      have hother : (StorageCall.deleteAuditEventsBefore cutoff : StorageCall U J F) ≠ .insertAuditEvent event := by simp
      rw [hevents, hkept, hlater]
      tauto

/-- No id is in the list twice. -/
theorem nodup_auditEvents : ∀ (calls : List (StorageCall U J F)) (log : EventLog U J F), (log.auditEvents.map (·.id)).Nodup →
    ((Related.answers (EventLog.call isNan dialect) log calls).2.auditEvents.map (·.id)).Nodup := by
  intro calls
  induction calls with
  | nil => exact fun log hnodup => hnodup
  | cons call calls ih =>
    intro log hnodup
    rw [Related.answers_cons]
    apply ih
    cases auditStep isNan dialect log call with
    | stays hevents => rwa [hevents]
    | accepts event _ _ hnew hevents =>
      rw [hevents, map_append, nodup_append]
      simpa using ⟨hnodup, hnew⟩
    | deletes cutoff _ hevents =>
      rw [hevents]
      exact hnodup.sublist (filter_sublist.map _)

end

/-! ## What is read -/

section
variable {U J F : Type} [LinearOrder U] {enc : Encoding U J F} (h : enc.Documented) {dialect : SqlDialect}

include h

theorem answers_logOf {calls : List (StorageCall U J F)} (hread : ∀ call ∈ calls, call.Readable enc) :
    LogOf enc dialect (Related.answers (Database.call enc dialect) {} calls).2
      (Related.answers (EventLog.call enc.isNan dialect) {} calls).2 :=
  (Related.answers_eq (fun _ _ _ hlog => call_eq h hlog) calls {} {} logOf_empty hread).2

theorem survives_iff {calls : List (StorageCall U J F)} (hread : ∀ call ∈ calls, call.Readable enc)
    (event : Record U (AuditColumns U J)) : Survives enc.isNan dialect {} calls event ↔
      ∃ before after, calls = before ++ .insertAuditEvent event :: after ∧
        ((Related.answers (Database.call enc dialect) {} before).2.call enc dialect (.insertAuditEvent event)).1 = .ok .done ∧
        ∀ cutoff, .deleteAuditEventsBefore cutoff ∈ after → ¬event.at_ < cutoff := by
  unfold Survives
  apply exists₂_congr
  intro before after
  apply and_congr_right
  intro heq
  rw [heq] at hread
  have hbefore : ∀ call ∈ before, call.Readable enc := fun call hcall => hread call (mem_append_left _ hcall)
  have hevent := hread (.insertAuditEvent event) (mem_append_right _ mem_cons_self)
  rw [(call_eq h (answers_logOf h hbefore) hevent).1]

end

end Llmctl.Tables
