import Mathlib.Data.List.Forall2
import Mathlib.Data.List.Induction

/-!
# Hash chains

Each entry of a chain names the hash of the one before it. Where entries of one hash are
alike, the hash of the last entry says what all of them are.
-/

namespace HashChain

variable {E H : Type} (hash : E → H) (link : E → Option H)

/-- The hash that the next entry has to name. -/
def head (entries : List E) : Option H := entries.getLast?.map hash

/-- A chain that goes on from the hash `prev`. -/
def Linked (prev : Option H) : List E → Prop
  | [] => True
  | e :: es => link e = prev ∧ Linked (some (hash e)) es

theorem head_concat (es : List E) (e : E) : head hash (es ++ [e]) = some (hash e) := by
  simp [head]

theorem linked_concat {prev : Option H} {es : List E} {e : E} : Linked hash link prev (es ++ [e]) ↔
    Linked hash link prev es ∧ link e = (head hash es).or prev := by
  induction es generalizing prev with
  | nil => simp [Linked, head]
  | cons d es ih =>
    rw [List.cons_append, Linked, Linked, ih, and_assoc]
    refine and_congr_right fun _ => and_congr_right fun _ => ?_
    cases es with
    | nil => simp [head]
    | cons d' es =>
      have hlast := List.getLast?_eq_some_getLast (List.cons_ne_nil d' es)
      simp only [head, List.getLast?_cons_cons, hlast, Option.map_some, Option.some_or]

variable {hash link}

/-- Chains with one head are alike, entry by entry, if entries with one hash are, and if
alike entries name the same hash. -/
theorem forall₂_of_head_eq {R : E → E → Prop} {es fs : List E} (hes : Linked hash link none es)
    (hfs : Linked hash link none fs) (hhead : head hash es = head hash fs)
    (hlike : ∀ e ∈ es, ∀ f ∈ fs, hash e = hash f → R e f) (hlink : ∀ e ∈ es, ∀ f ∈ fs, R e f → link e = link f) :
    List.Forall₂ R es fs := by
  induction es using List.reverseRecOn generalizing fs with
  | nil =>
    cases fs using List.reverseRecOn with
    | nil => exact .nil
    | append_singleton fs f =>
      rw [head_concat] at hhead
      cases hhead
  | append_singleton es e ih =>
    cases fs using List.reverseRecOn with
    | nil =>
      rw [head_concat] at hhead
      cases hhead
    | append_singleton fs f =>
      rw [head_concat, head_concat] at hhead
      have hR := hlike e (by simp) f (by simp) (Option.some.inj hhead)
      obtain ⟨hes, he⟩ := (linked_concat hash link).mp hes
      obtain ⟨hfs, hf⟩ := (linked_concat hash link).mp hfs
      have hbefore : head hash es = head hash fs := by
        have hsame := hlink e (by simp) f (by simp) hR
        rw [he, hf] at hsame
        simpa using hsame
      refine List.rel_append (ih hes hfs hbefore ?_ ?_) (.cons hR .nil)
      · exact fun e he f hf => hlike e (List.mem_append_left _ he) f (List.mem_append_left _ hf)
      · exact fun e he f hf => hlink e (List.mem_append_left _ he) f (List.mem_append_left _ hf)

end HashChain
