import Mathlib.Logic.Relation
import ScriptFeatures.Feature.Frequency

/-!
Sources that are recorded at the same time. A call goes through the distinct
features of its source and counts each in the store that the calls share; a
step of the recording is one such count, by whichever call. What a store is
and how it counts is left open. A run counts some features one after another,
and those together with the ones still pending are what was pending before.
-/

namespace ScriptFeatures

/-- Calls under way, each with the features it still has to count, and their
store. -/
structure Recording (σ : Type) where
  pending : List (List Feature)
  store : σ

namespace Recording

variable {σ : Type} {increment : σ → Feature → σ}

/-- One of the calls counts its next feature. -/
inductive Step (increment : σ → Feature → σ) : Recording σ → Recording σ → Prop
  | count (before after : List (List Feature)) (f : Feature) (fs : List Feature) (s : σ) :
      Step increment ⟨before ++ (f :: fs) :: after, s⟩ ⟨before ++ fs :: after, increment s f⟩

abbrev Run (increment : σ → Feature → σ) : Recording σ → Recording σ → Prop :=
  Relation.ReflTransGen (Step increment)

def start (s : σ) (ms : List Frequencies) : Recording σ := ⟨ms.map (·.distinct.toList), s⟩

def IsDone (r : Recording σ) : Prop := ∀ fs ∈ r.pending, fs = []

theorem Step.counted {r r' : Recording σ} (h : Step increment r r') :
    ∃ f, r'.store = increment r.store f ∧ (f :: r'.pending.flatten).Perm r.pending.flatten := by
  cases h with
  | count before after f fs s =>
    refine ⟨f, rfl, ?_⟩
    simp only [List.flatten_append, List.flatten_cons, List.cons_append]
    exact List.perm_middle.symm

theorem Run.counted {r r' : Recording σ} (h : Run increment r r') :
    ∃ fs, r'.store = fs.foldl increment r.store ∧
      (fs ++ r'.pending.flatten).Perm r.pending.flatten := by
  induction h with
  | refl => exact ⟨[], rfl, .refl _⟩
  | @tail r' r'' _ hstep ih =>
    obtain ⟨fs, hstore, hperm⟩ := ih
    obtain ⟨f, hlast, hnext⟩ := hstep.counted
    refine ⟨fs ++ [f], ?_, ?_⟩
    · rw [hlast, hstore, List.foldl_append]
      rfl
    · rw [List.append_assoc]
      exact (hnext.append_left fs).trans hperm

/-- When all calls are done, every distinct feature of every source has been
counted, in some order. -/
theorem Run.counted_of_isDone {s : σ} {ms : List Frequencies} {r : Recording σ}
    (h : Run increment (start s ms) r) (hdone : r.IsDone) :
    ∃ fs : List Feature, r.store = fs.foldl increment s ∧
      fs.Perm (ms.flatMap (·.distinct.toList)) := by
  obtain ⟨fs, hstore, hperm⟩ := h.counted
  have hnone : r.pending.flatten = [] := List.flatten_eq_nil_iff.mpr hdone
  rw [hnone, List.append_nil] at hperm
  exact ⟨fs, hstore, hperm⟩

/-! ### One call after another -/

theorem run_call (before after : List (List Feature)) (fs : List Feature) (s : σ) :
    Run increment ⟨before ++ fs :: after, s⟩ ⟨before ++ [] :: after, fs.foldl increment s⟩ := by
  induction fs generalizing s with
  | nil => exact .refl
  | cons f fs ih => exact .head (.count before after f fs s) (ih (increment s f))

theorem run_calls (before : List (List Feature)) (ms : List Frequencies) (s : σ) :
    Run increment ⟨before ++ ms.map (·.distinct.toList), s⟩
      ⟨before ++ ms.map fun _ => [], ms.foldl (fun s m => m.distinct.foldl increment s) s⟩ := by
  induction ms generalizing before s with
  | nil => exact .refl
  | cons m ms ih =>
    have hfirst := @run_call σ increment before (ms.map (·.distinct.toList)) m.distinct.toList s
    have hrest := ih (before ++ [[]]) (m.distinct.toList.foldl increment s)
    rw [List.append_assoc, List.append_assoc, Array.foldl_toList] at hrest
    rw [Array.foldl_toList] at hfirst
    exact hfirst.trans hrest

theorem run_foldl (s : σ) (ms : List Frequencies) :
    Run increment (start s ms)
      ⟨ms.map fun _ => [], ms.foldl (fun s m => m.distinct.foldl increment s) s⟩ :=
  run_calls [] ms s

end Recording

end ScriptFeatures
