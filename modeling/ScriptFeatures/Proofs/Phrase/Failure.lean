import ScriptFeatures.Proofs.Phrase.Extraction
import ScriptFeatures.Proofs.Phrase.Numbering

/-!
When an extraction fails. The nodes of a tree that was built are numbered in
pre-order, since what a phrase holds lies right behind it. An extraction looks
up the kinds in this order, and of an expression statement also that of its
first child, which is the next node. So it fails at the first node whose kind is
not known, and nothing else makes it fail.
-/

namespace ScriptFeatures

open Growth

theorem knownKinds_eq : knownKinds = kindTable.map Prod.fst := rfl

theorem classify?_eq_none_iff {kind : String} : classify? kind = none ↔ kind ∉ knownKinds := by
  rw [classify?, List.lookup_eq_none_iff, knownKinds_eq, List.mem_map]
  constructor
  · rintro hall ⟨entry, hentry, rfl⟩
    simpa using hall entry hentry
  · intro habsent entry hentry
    rw [bne_iff_ne]
    rintro rfl
    exact habsent ⟨entry, hentry, rfl⟩

namespace Phrase

theorem isUnclassified_iff {p : Phrase} : p.isUnclassified = true ↔ p.kind ∉ knownKinds := by
  rw [isUnclassified, Option.isNone_iff_eq_none, classify?_eq_none_iff]

theorem extract_eq_error_iff {ps : List Phrase} {e : Error} :
    extract ps = .error e ↔ ∃ p, ps.find? isUnclassified = some p ∧ e = .unclassified p.kind := by
  rw [extract]
  cases ps.find? isUnclassified with
  | none => simp
  | some p => simp [eq_comm]

end Phrase

namespace Tree

theorem Laid.stands_getElem {t : Tree} (hc : t.Consistent) {p : Phrase}
    (h : t.Laid rootId [rootId] [p] t.size) :
    p.preorder.length = t.size ∧
      ∀ (i : Nat) (hi : i < p.preorder.length), t.Stands i p.preorder[i] := by
  have hstands := h.stands hc
  rw [List.flatMap_singleton, List.flatMap_singleton, ← hc.preorder_eq, h.preorder_eq hc]
    at hstands
  have hlength := hstands.length_eq
  rw [List.length_range] at hlength
  refine ⟨hlength.symm, fun i hi => ?_⟩
  have hget := hstands.get (by simpa [hlength] using hi) hi
  simpa using hget

/-- What a call leaves of a lone root holds a phrase and nothing else. -/
theorem Call.exists_laid {kind : String} {call : Call} {t : Tree}
    (h : call.run (ofRoot kind) = .ok t) :
    t.Grown ∧ ∃ p : Phrase, t.Laid rootId [rootId] [p] t.size := by
  obtain ⟨ms, hms⟩ := call.run_planted kind
  obtain ⟨hgrown, hlaid⟩ := plantMembers_ofRoot kind ms
  rw [h, Except.ok.injEq] at hms
  subst hms
  exact ⟨hgrown.sealed, _, hlaid.congr fun _ _ _ => rfl⟩

/-- The first node of a tree whose kind is not known. -/
def IsFirstUnknown (t : Tree) (id : NodeId) (n : Node) : Prop :=
  t.get? id = some n ∧ n.kind ∉ knownKinds ∧
    ∀ i < id, ∀ m, t.get? i = some m → m.kind ∈ knownKinds

theorem exists_isFirstUnknown {t : Tree} {id : NodeId} {n : Node} (hn : t.get? id = some n)
    (hunknown : n.kind ∉ knownKinds) : ∃ id n, t.IsFirstUnknown id n := by
  induction id using Nat.strongRecOn generalizing n with
  | ind id ih =>
    by_cases hfirst : ∀ i < id, ∀ m, t.get? i = some m → m.kind ∈ knownKinds
    · exact ⟨id, n, hn, hunknown, hfirst⟩
    · push Not at hfirst
      obtain ⟨i, hi, m, hm, habsent⟩ := hfirst
      exact ih i hi hm habsent

theorem Laid.find?_isUnclassified {t : Tree} (hc : t.Consistent) {p : Phrase}
    (h : t.Laid rootId [rootId] [p] t.size) {e : Error} :
    (∃ q, p.preorder.find? Phrase.isUnclassified = some q ∧ e = .unclassified q.kind) ↔
      ∃ id n, t.IsFirstUnknown id n ∧ e = .unclassified n.kind := by
  obtain ⟨hlength, hstands⟩ := h.stands_getElem hc
  constructor
  · rintro ⟨q, hq, rfl⟩
    obtain ⟨hunknown, i, hi, rfl, hbefore⟩ := List.find?_eq_some_iff_getElem.mp hq
    obtain ⟨n, hn, hkind, -⟩ := hstands i hi
    refine ⟨i, n, ⟨hn, ?_, fun j hj m hm => ?_⟩, by rw [hkind]⟩
    · rw [hkind]
      exact Phrase.isUnclassified_iff.mp hunknown
    · obtain ⟨m', hm', hkind', -⟩ := hstands j (Nat.lt_trans hj hi)
      rw [hm', Option.some.injEq] at hm
      subst hm
      rw [hkind']
      by_contra habsent
      have hfound := hbefore j hj
      rw [Phrase.isUnclassified_iff.mpr habsent] at hfound
      contradiction
  · rintro ⟨id, n, ⟨hn, hunknown, hbefore⟩, rfl⟩
    have hid : id < p.preorder.length := hlength ▸ lt_size_of_get? hn
    obtain ⟨m, hm, hkind, -⟩ := hstands id hid
    rw [hn, Option.some.injEq] at hm
    subst hm
    refine ⟨p.preorder[id], ?_, by rw [hkind]⟩
    refine List.find?_eq_some_iff_getElem.mpr ⟨?_, id, hid, rfl, ?_⟩
    · rw [Phrase.isUnclassified_iff, ← hkind]
      exact hunknown
    · intro j hj
      obtain ⟨m, hm, hkind, -⟩ := hstands j (Nat.lt_trans hj hid)
      have hknown := hbefore j hj m hm
      rw [Bool.not_eq_true', Bool.eq_false_iff, Ne, Phrase.isUnclassified_iff, ← hkind]
      exact fun habsent => habsent hknown

/-- The features of a tree that was built, from whatever document: there is an
error exactly if some node has a kind that is not known. It is then the error of
the first such node, which is both the one with the smallest identifier and the
first in pre-order. -/
theorem features_eq_error_iff (kind : String) (call : Call) (t : Tree)
    (h : call.run (ofRoot kind) = .ok t) :
    ((∃ e, t.features = .error e) ↔ ∃ id n, t.get? id = some n ∧ n.kind ∉ knownKinds) ∧
    (∀ e, t.features = .error e ↔ ∃ id n, t.IsFirstUnknown id n ∧ e = .unclassified n.kind) ∧
    t.preorder rootId = List.range t.size := by
  obtain ⟨hgrown, p, hlaid⟩ := Call.exists_laid h
  have hc := hgrown.consistent
  have herror (e : Error) : t.features = .error e ↔
      ∃ id n, t.IsFirstUnknown id n ∧ e = .unclassified n.kind := by
    rw [hlaid.features_eq hgrown, ← hlaid.find?_isUnclassified hc, ← Phrase.extract_eq_error_iff]
    cases Phrase.extract p.preorder <;> simp [Except.map]
  refine ⟨⟨?_, ?_⟩, herror, hlaid.preorder_eq hc⟩
  · rintro ⟨e, he⟩
    obtain ⟨id, n, ⟨hn, hunknown, -⟩, -⟩ := (herror e).mp he
    exact ⟨id, n, hn, hunknown⟩
  · rintro ⟨id, n, hn, hunknown⟩
    obtain ⟨id', n', hfirst⟩ := exists_isFirstUnknown hn hunknown
    exact ⟨_, (herror _).mpr ⟨id', n', hfirst, rfl⟩⟩

/-- A literal without a value, a statement whose expression is of no known kind,
and another such node behind it. -/
def unknownBody : List Json.Value :=
  [.object [("type", .string "Literal")],
    .object [("type", .string "ExpressionStatement"),
      ("expression", .object [("type", .string "JSXElement")])],
    .object [("type", .string "JSXText")]]

def unknownTree : Tree :=
  ((((ofRoot "Program").addChild 0 "Literal" "body" true).addChild 0 "ExpressionStatement" "body"
    true).addChild 2 "JSXElement" "expression" false).addChild 0 "JSXText" "body" true |>.sealed

/-- The kind that the statement looks up ends the extraction. -/
theorem features_unknownTree :
    (Call.buildProgram unknownBody).run (ofRoot "Program") = .ok unknownTree ∧
      unknownTree.features = .error (.unclassified "JSXElement") := by
  have hrun : (Call.buildProgram unknownBody).run (ofRoot "Program") = .ok unknownTree := by
    with_unfolding_all rfl
  obtain ⟨-, herror, -⟩ := features_eq_error_iff "Program" (.buildProgram unknownBody) _ hrun
  have hthird : unknownTree.get? 3 = some ⟨3, "JSXElement", "expression", false, some 2, #[], []⟩ :=
    rfl
  refine ⟨hrun, (herror _).mpr ⟨3, _, ⟨hthird, by decide, fun i hi m hm => ?_⟩, rfl⟩⟩
  have hkinds : ∀ i < 3, ∀ m ∈ unknownTree.get? i, m.kind ∈ knownKinds := by decide
  exact hkinds i hi m hm

end Tree

end ScriptFeatures
