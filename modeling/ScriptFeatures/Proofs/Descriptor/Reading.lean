import ScriptFeatures.Proofs.Descriptor.Written
import ScriptFeatures.Proofs.Json.Reading.Objects

/-!
Descriptors along a parse tree. A document that is read is an object or the list
of its members, and its statements are what is read of the list that stands in
the place of the body (`Descriptor.exists_body`).
-/

namespace ScriptFeatures.Descriptor

open Json Json.Reader ParseTree

def placeNames : List String := (requiredPlaces ++ optionalPlaces).map Prod.fst

theorem nodup_placeNames : placeNames.Nodup := by decide

/-- A text of the tokens of a parse tree, with spaces in front. -/
def IsText (x : ParseTree) (text : String) : Prop :=
  ∃ blank written, (∀ c ∈ blank, c ∈ spaces) ∧ Spaced x.tokens written ∧
    text.toList = blank ++ written

theorem isText_flatten (x : ParseTree) : IsText x (String.ofList x.tokens.flatten) := by
  have hblank : ∀ c ∈ ([] : List Char), c ∈ spaces := fun c hc => absurd hc List.not_mem_nil
  refine ⟨[], x.tokens.flatten, hblank, ?_, String.toList_ofList⟩
  have hspaced := spaced_flatMap hblank x.tokens
  simp only [List.append_nil] at hspaced
  rwa [List.flatMap_id'] at hspaced

theorem reads_of_read {x : ParseTree} (hx : x.Lexical) {text : String} (htext : IsText x text)
    {v : Value} (h : Json.read none shape text = .ok v) : Reads shape x v := by
  obtain ⟨blank, written, hblank, hwritten, htext⟩ := htext
  have hstart : Between (.start shape) := .await _ _
  rw [read_eq_outcome, htext, hstart.outcome_blank hblank, ← List.append_nil written] at h
  have hend : Bounded [] := fun c hc => by contradiction
  obtain ⟨_, ⟨w, hw, rfl⟩, hdone⟩ :=
    leads_tokens hx shape [] _ .value written hwritten [] v hend h
  rwa [← Except.ok.inj hdone]

theorem exists_items {y : ParseTree} {w : Value} (h : Reads (.list .any) y w) :
    ∃ items, y = .array items ∧ List.Forall₂ (Reads .any) items w.items := by
  cases h with
  | null haccept | bool haccept | number _ haccept | string _ haccept => contradiction
  | list helement hlength hitems =>
    cases helement
    exact ⟨_, rfl, List.forall₂_iff_zip.mpr ⟨hlength, hitems _⟩⟩

theorem assembled {required optional : List (String × Shape)} {read : Members} {v : Value}
    (h : assemble required optional read = .ok v) :
    (∀ name ∈ required.map Prod.fst, (read.get? name).isSome) ∧
      v = .object ((required ++ optional).map fun place =>
        (place.1, (read.get? place.1).getD (.array []))) := by
  rw [assemble] at h
  split at h
  · contradiction
  · next hnone =>
    refine ⟨List.forall_mem_map.mpr fun place hplace => ?_, (Except.ok.inj h).symm⟩
    rw [Option.isSome_iff_ne_none]
    simpa using List.find?_eq_none.mp hnone place hplace

theorem exists_body {x : ParseTree} (hx : x.Lexical) {text : String} (htext : IsText x text)
    {d : Descriptor} (h : read text = .ok d) :
    ∃ items, x.place? placeNames "body" = some (.array items) ∧
      List.Forall₂ (Reads .any) items d.body := by
  obtain ⟨v, hv, rfl⟩ := json_read_of_read h
  have hreads := reads_of_read hx htext hv
  rw [shape_eq] at hreads
  cases hreads with
  | null haccept | bool haccept | number _ haccept | string _ haccept => contradiction
  | list helement => contradiction
  | @record _ _ _ _ _ read hassemble hplaces hread =>
    obtain ⟨hrequired, rfl⟩ := assembled hassemble
    have hfound := hrequired "body" (by decide)
    obtain ⟨w, hw⟩ := Option.isSome_iff_exists.mp hfound
    obtain ⟨y, hy⟩ := Option.isSome_iff_exists.mp (hplaces nodup_placeNames "body" hfound)
    obtain ⟨items, rfl, hitems⟩ := exists_items (hread nodup_placeNames "body" _ y w rfl hy hw)
    refine ⟨items, hy, ?_⟩
    change List.Forall₂ (Reads .any) items ((read.get? "body").getD (.array [])).items
    rw [hw]
    exact hitems

end ScriptFeatures.Descriptor
