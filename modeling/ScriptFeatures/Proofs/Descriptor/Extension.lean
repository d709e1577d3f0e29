import ScriptFeatures.Proofs.Json.Tokens
import ScriptFeatures.Proofs.Parser.Documents

/-!
Documents that go on or break off. A document is complete at the bracket that
closes it, and behind its result the reader passes over spaces and refuses all
else (`Json.Reader.run_of_done`). So what follows a document decides whether
the longer text is one, and a text that a document only begins with is none.
-/

namespace ScriptFeatures

namespace Json

/-- A text that was read as a list or an object decides what the texts are read
as that it begins. -/
theorem read_append {limit : Option Nat} {shape : Shape}
    (hshape : ∀ v v', shape.accept v ≠ .ok v') {text : String} {v : Value}
    (h : read limit shape text = .ok v) (more : String) :
    read limit shape (text ++ more) =
      if more.toList.all Reader.isSpace then .ok v else .error .trailingText := by
  rw [read] at h
  split at h
  · contradiction
  next st hrun =>
  have hdone := ((Reader.asks_start shape).run hrun).finish_eq_ok hshape h
  have hbind : (Except.ok st : Except Error Reader.State).bind
      (Reader.run limit · more.toList) = Reader.run limit st more.toList := rfl
  rw [read, String.toList_append, Reader.run_append, hrun, hbind, Reader.run_of_done hdone]
  cases more.toList.all Reader.isSpace
  · rfl
  · exact h

end Json

open Json

namespace Descriptor

theorem read_append_eq {text : String} {d : Descriptor} (h : read text = .ok d) (more : String) :
    read (text ++ more) =
      if more.toList.all Json.Reader.isSpace then .ok d else .error .trailingText := by
  obtain ⟨v, hv, rfl⟩ := json_read_of_read h
  rw [read, Json.read_append shape_accept_ne_ok hv]
  cases more.toList.all Json.Reader.isSpace <;> rfl

/-- A document goes on with spaces alone, and it does not break off anywhere
before its end, so a text that is cut off is no document. -/
theorem read_extended {text : String} {d : Descriptor} (h : read text = .ok d) :
    (∀ more : String,
      ((∃ d', read (text ++ more) = .ok d') ↔ ∀ c ∈ more.toList, c ∈ spaces) ∧
      ((∀ c ∈ more.toList, c ∈ spaces) → read (text ++ more) = .ok d) ∧
      ((∃ c ∈ more.toList, c ∉ spaces) → read (text ++ more) = .error .trailingText)) ∧
    ∀ kept cut : String, kept ++ cut = text → (∃ c ∈ cut.toList, c ∉ spaces) →
      ∃ e, read kept = .error e := by
  have hblank (more : String) (hmore : ∀ c ∈ more.toList, c ∈ spaces) :
      read (text ++ more) = .ok d := by
    rw [read_append_eq h, if_pos (all_isSpace.mpr hmore)]
  have htrailing {text' : String} {d' : Descriptor} (h' : read text' = .ok d') (more : String)
      (hmore : ∃ c ∈ more.toList, c ∉ spaces) : read (text' ++ more) = .error .trailingText := by
    obtain ⟨c, hc, hspace⟩ := hmore
    rw [read_append_eq h', if_neg fun hall => hspace (all_isSpace.mp hall c hc)]
  refine ⟨fun more =>
    ⟨⟨?_, fun hmore => ⟨d, hblank more hmore⟩⟩, hblank more, htrailing h more⟩, ?_⟩
  · rintro ⟨d', hd'⟩ c hc
    by_contra hspace
    rw [htrailing h more ⟨c, hc, hspace⟩] at hd'
    contradiction
  · intro kept cut hcut hmore
    cases hkept : read kept with
    | error e => exact ⟨e, rfl⟩
    | ok d' =>
      -- a document that the text goes on from would decide what the text is read as
      have hrefused := htrailing hkept cut hmore
      rw [hcut, h] at hrefused
      contradiction

theorem read_extended_literalText :
    read (Parser.literalText ++ " \r\n") = .ok Parser.literalDescriptor ∧
      read (Parser.literalText ++ "\n]") = .error .trailingText ∧
      ∃ e, read "[\"Prog" = .error e := by
  obtain ⟨hextended, hcut⟩ := read_extended Parser.read_literalText
  refine ⟨(hextended " \r\n").2.1 (by simp [spaces]), (hextended "\n]").2.2 ⟨']', ?_⟩, ?_⟩
  · simp [spaces]
  · -- the text breaks off inside its first string
    have hlast : ']' ∈ (String.ofList (Parser.literalText.toList.drop 6)).toList := by
      simp [Parser.literalText]
    exact hcut "[\"Prog" _ (by decide) ⟨']', hlast, by simp [spaces]⟩

end Descriptor

end ScriptFeatures
