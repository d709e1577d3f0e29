import Mathlib.Data.List.Induction
import ScriptFeatures.Proofs.Json.ParseTree
import ScriptFeatures.Proofs.Phrase.Composition

/-!
Phrases as they are written. A parse tree of an object has a field for each
name, which is the last member of the name at the place of the first one
(`ParseTree.fields`), and whether the object is a node and which nodes it holds
can be told from its fields. What is read of it is a phrase with the same nodes
below it, one for one (`ParseTree.forall₂_nodes`).
-/

namespace ScriptFeatures

open Json Growth

namespace Json.ParseTree

/-! ### Fields -/

abbrev Fields := List (String × ParseTree)

def Fields.update (name : String) (x : ParseTree) : Fields → Fields
  | [] => []
  | (k, y) :: fs => if k = name then (k, x) :: fs else (k, y) :: update name x fs

/-- Puts a field in front of those already there, or changes the one of its
name where it stands. -/
def Fields.put (fs : Fields) (name : String) (x : ParseTree) : Fields :=
  if fs.any (·.1 == name) then fs.update name x else (name, x) :: fs

/-- The fields of an object. A name that is no string does not occur in a text
that is read. -/
def fields : ParseTree → Fields
  | .object members =>
    (members.foldl (fun fs m => Fields.put fs ((textOf? m.1).getD "") m.2) []).reverse
  | _ => []

def field? (x : ParseTree) (name : String) : Option ParseTree := x.fields.lookup name

def text? : ParseTree → Option String
  | .string token => textOf? token
  | _ => none

def kind? (x : ParseTree) : Option String := (x.field? "type").bind text?

/-! ### Nodes -/

def heldBy : ParseTree → List ParseTree
  | .array items => items.filter (·.kind?.isSome)
  | x => [x].filter (·.kind?.isSome)

def parts (x : ParseTree) : List ParseTree :=
  x.fields.flatMap fun f => if f.1 ∈ leafNames then [] else heldBy f.2

theorem mem_update {fs : Fields} {name : String} {x : ParseTree} {f : String × ParseTree}
    (h : f ∈ fs.update name x) : f ∈ fs ∨ f.2 = x := by
  induction fs with
  | nil => exact absurd h List.not_mem_nil
  | cons g fs ih =>
    obtain ⟨k, y⟩ := g
    rw [Fields.update] at h
    split at h
    · rcases List.mem_cons.mp h with rfl | h
      · exact .inr rfl
      · exact .inl (List.mem_cons_of_mem _ h)
    · rcases List.mem_cons.mp h with rfl | h
      · exact .inl List.mem_cons_self
      · exact (ih h).imp (List.mem_cons_of_mem _) id

theorem mem_put {fs : Fields} {name : String} {x : ParseTree} {f : String × ParseTree}
    (h : f ∈ fs.put name x) : f ∈ fs ∨ f.2 = x := by
  rw [Fields.put] at h
  split at h
  · exact mem_update h
  · rcases List.mem_cons.mp h with rfl | h
    · exact .inr rfl
    · exact .inl h

theorem sizeOf_of_mem_fields {x : ParseTree} {f : String × ParseTree} (h : f ∈ x.fields) :
    sizeOf f.2 < sizeOf x := by
  cases x with
  | object members =>
    have hmember : ∀ members' : List (Token × ParseTree),
        f ∈ members'.foldl (fun fs m => Fields.put fs ((textOf? m.1).getD "") m.2) [] →
          ∃ m ∈ members', f.2 = m.2 := by
      intro members' hf
      induction members' using List.reverseRecOn with
      | nil => exact absurd hf List.not_mem_nil
      | append_singleton members' m ih =>
        rw [List.foldl_append] at hf
        rcases mem_put hf with hf | heq
        · obtain ⟨m', hm', heq⟩ := ih hf
          exact ⟨m', List.mem_append_left _ hm', heq⟩
        · exact ⟨m, List.mem_concat_self, heq⟩
    obtain ⟨m, hm, heq⟩ := hmember members (List.mem_reverse.mp h)
    have hlt := List.sizeOf_lt_of_mem hm
    have hpair : sizeOf m.2 < sizeOf m := by
      obtain ⟨token, y⟩ := m
      simp only [Prod.mk.sizeOf_spec]
      omega
    rw [heq]
    simp only [object.sizeOf_spec]
    omega
  | null | bool _ | number _ | string _ | array _ => exact absurd h List.not_mem_nil

theorem sizeOf_of_mem_heldBy {x y : ParseTree} (h : y ∈ heldBy x) : sizeOf y ≤ sizeOf x := by
  unfold heldBy at h
  split at h
  · next items =>
    have hlt := List.sizeOf_lt_of_mem (List.mem_of_mem_filter h)
    simp only [array.sizeOf_spec]
    omega
  · rw [List.mem_singleton.mp (List.mem_of_mem_filter h)]

theorem sizeOf_of_mem_parts {x y : ParseTree} (h : y ∈ x.parts) : sizeOf y < sizeOf x := by
  obtain ⟨f, hf, hy⟩ := List.mem_flatMap.mp h
  exact Nat.lt_of_le_of_lt (sizeOf_of_mem_heldBy (List.mem_ite_nil_left.mp hy).2)
    (sizeOf_of_mem_fields hf)

/-- A node followed by all nodes below it, in order. -/
def nodes (x : ParseTree) : List ParseTree := x :: x.parts.attach.flatMap fun y => y.1.nodes
  termination_by sizeOf x
  decreasing_by exact sizeOf_of_mem_parts y.2

theorem nodes_eq (x : ParseTree) : x.nodes = x :: x.parts.flatMap nodes := by
  rw [nodes]
  simp

/-! ### What is read of nodes -/

def ReadsField (f : String × ParseTree) (e : String × Value) : Prop :=
  f.1 = e.1 ∧ Reads .any f.2 e.2

theorem forall₂_update {fs : Fields} {ms : Members} (h : List.Forall₂ ReadsField fs ms)
    (name : String) {x : ParseTree} {v : Value} (hx : Reads .any x v) :
    List.Forall₂ ReadsField (fs.update name x) (Members.update name v ms) := by
  induction h with
  | nil => exact .nil
  | @cons f e fs ms hfe hrest ih =>
    obtain ⟨k, y⟩ := f
    obtain ⟨k', w⟩ := e
    obtain ⟨rfl, hy⟩ := hfe
    rw [Fields.update, Members.update]
    split
    · exact .cons ⟨rfl, hx⟩ hrest
    · exact .cons ⟨rfl, hy⟩ ih

theorem forall₂_put {fs : Fields} {ms : Members} (h : List.Forall₂ ReadsField fs ms)
    (name : String) {x : ParseTree} {v : Value} (hx : Reads .any x v) :
    List.Forall₂ ReadsField (fs.put name x) (Members.put ms name v) := by
  have hany : fs.any (·.1 == name) = ms.any (·.1 == name) := by
    induction h with
    | nil => rfl
    | cons hfe _ ih => rw [List.any_cons, List.any_cons, ih, hfe.1]
  rw [Fields.put, Members.put, hany]
  split
  · exact forall₂_update h name hx
  · exact .cons ⟨rfl, hx⟩ h

theorem forall₂_fields {x : ParseTree} {ms : Members} (h : Reads .any x (.object ms)) :
    List.Forall₂ ReadsField x.fields ms := by
  obtain ⟨members, entries, rfl, hentries, rfl⟩ := h.exists_entries
  have hfold : ∀ (fs : Fields) (read : Members), List.Forall₂ ReadsField fs read →
      List.Forall₂ ReadsField
        (members.foldl (fun fs m => Fields.put fs ((textOf? m.1).getD "") m.2) fs)
        (entries.foldl (fun read e => Members.put read e.1 e.2) read) := by
    clear h
    induction hentries with
    | nil => exact fun fs read h => h
    | @cons m e members entries hme _ ih =>
      intro fs read h
      rw [List.foldl_cons, List.foldl_cons, hme.1]
      exact ih _ _ (forall₂_put h e.1 hme.2)
  exact List.rel_reverse (hfold [] [] .nil)

theorem names_update (name : String) (v : Value) (ms : Members) :
    (Members.update name v ms).map Prod.fst = ms.map Prod.fst := by
  induction ms with
  | nil => rfl
  | cons m ms ih =>
    rw [Members.update]
    split
    · rfl
    · rw [List.map_cons, ih, List.map_cons]

theorem nodup_names_put {ms : Members} (h : (ms.map Prod.fst).Nodup) (name : String) (v : Value) :
    ((Members.put ms name v).map Prod.fst).Nodup := by
  rw [Members.put]
  split
  · rwa [names_update]
  · next hany =>
    rw [List.map_cons, List.nodup_cons]
    refine ⟨fun hmem => hany ?_, h⟩
    obtain ⟨m, hm, hname⟩ := List.mem_map.mp hmem
    exact List.any_eq_true.mpr ⟨m, hm, beq_iff_eq.mpr hname⟩

theorem nodup_names {x : ParseTree} {ms : Members} (h : Reads .any x (.object ms)) :
    (ms.map Prod.fst).Nodup := by
  obtain ⟨-, entries, -, -, rfl⟩ := h.exists_entries
  have hfold : ∀ (entries read : Members), (read.map Prod.fst).Nodup →
      ((entries.foldl (fun read e => Members.put read e.1 e.2) read).map Prod.fst).Nodup := by
    intro entries
    induction entries with
    | nil => exact fun read h => h
    | cons e entries ih => exact fun read h => ih _ (nodup_names_put h e.1 e.2)
  rw [List.map_reverse, List.nodup_reverse]
  exact hfold entries [] List.nodup_nil

theorem field?_cases {x : ParseTree} {ms : Members} (h : Reads .any x (.object ms))
    (name : String) :
    x.field? name = none ∧ ms.get? name = none ∨
      ∃ y v, x.field? name = some y ∧ ms.get? name = some v ∧ Reads .any y v := by
  have hfields := forall₂_fields h
  rw [field?, Members.get?]
  generalize x.fields = fs at hfields ⊢
  clear h
  induction hfields with
  | nil => exact .inl ⟨rfl, rfl⟩
  | @cons f e fs ms hfe _ ih =>
    obtain ⟨k, y⟩ := f
    obtain ⟨k', v⟩ := e
    obtain ⟨rfl, hy⟩ := hfe
    rw [List.lookup_cons, List.lookup_cons]
    cases name == k with
    | true => exact .inr ⟨y, v, rfl, rfl, hy⟩
    | false => exact ih

theorem text?_eq {x : ParseTree} {v : Value} (h : Reads .any x v) : x.text? = v.string? := by
  cases h with
  | null haccept | bool haccept | number _ haccept =>
    cases haccept
    rfl
  | string hs haccept =>
    cases haccept
    exact hs
  | list | object => rfl

theorem kind?_eq {x : ParseTree} {ms : Members} (h : Reads .any x (.object ms)) :
    x.kind? = nodeKind? ms := by
  rw [kind?, nodeKind?]
  rcases field?_cases h "type" with ⟨hx, hms⟩ | ⟨y, v, hy, hv, hreads⟩
  · rw [hx, hms]
    rfl
  · rw [hy, hv]
    exact text?_eq hreads

/-- The phrase that is read of a node. -/
def IsPhrase (x : ParseTree) (p : Phrase) : Prop :=
  Reads .any x (.object p.members) ∧ x.kind? = some p.kind

theorem forall₂_ofValue? {x : ParseTree} {v : Value} (h : Reads .any x v) :
    List.Forall₂ IsPhrase ([x].filter (·.kind?.isSome)) (Phrase.ofValue? v).toList := by
  have hobject {ms : Members} (h : Reads .any x (.object ms)) :
      List.Forall₂ IsPhrase ([x].filter (·.kind?.isSome))
        (Phrase.ofValue? (.object ms)).toList := by
    have hkind := kind?_eq h
    rw [List.filter_singleton, hkind, Phrase.ofValue?]
    cases hms : nodeKind? ms with
    | none => exact .nil
    | some kind => exact .cons ⟨h, hkind.trans hms⟩ .nil
  cases h with
  | null haccept | bool haccept | number _ haccept | string _ haccept =>
    cases haccept
    exact .nil
  | list => exact .nil
  | object hlength hnames hvalues => exact hobject (.object hlength hnames hvalues)

theorem forall₂_filter {xs : List ParseTree} {vs : List Value}
    (h : List.Forall₂ (Reads .any) xs vs) :
    List.Forall₂ IsPhrase (xs.filter (·.kind?.isSome)) (vs.filterMap Phrase.ofValue?) := by
  induction h with
  | nil => exact .nil
  | @cons x v xs vs hx _ ih =>
    have hvalues : (v :: vs).filterMap Phrase.ofValue? =
        (Phrase.ofValue? v).toList ++ vs.filterMap Phrase.ofValue? := by
      rw [List.filterMap_cons]
      cases Phrase.ofValue? v <;> rfl
    rw [← List.singleton_append, List.filter_append, hvalues]
    exact List.rel_append (forall₂_ofValue? hx) ih

theorem forall₂_heldBy {x : ParseTree} {v : Value} (h : Reads .any x v) :
    List.Forall₂ IsPhrase (heldBy x) (Phrase.heldBy v) := by
  have hvalue := forall₂_ofValue? h
  cases h with
  | null haccept | bool haccept | number _ haccept | string _ haccept =>
    cases haccept
    exact hvalue
  | list helement hlength hitems =>
    cases helement
    exact forall₂_filter (List.forall₂_iff_zip.mpr ⟨hlength, hitems _⟩)
  | object => exact hvalue

theorem forall₂_parts {x : ParseTree} {p : Phrase} (h : x.IsPhrase p) :
    List.Forall₂ IsPhrase x.parts p.parts := by
  have hfields := forall₂_fields h.1
  rw [parts, Phrase.parts]
  generalize x.fields = fs, p.members = ms at hfields ⊢
  induction hfields with
  | nil => exact .nil
  | @cons f e fs ms hfe _ ih =>
    rw [List.flatMap_cons, List.flatMap_cons]
    refine List.rel_append ?_ ih
    rw [Phrase.ofMember, hfe.1]
    split
    · exact .nil
    · exact forall₂_heldBy hfe.2

/-- The nodes of a parse tree are the phrases that are read of it, in order. -/
theorem forall₂_nodes {x : ParseTree} {p : Phrase} (h : x.IsPhrase p) :
    List.Forall₂ IsPhrase x.nodes p.preorder := by
  induction p using Phrase.induction_on_parts generalizing x with
  | step p ih =>
    rw [nodes_eq, Phrase.preorder_eq]
    refine .cons h ?_
    have hparts := forall₂_parts h
    have hbelow : ∀ (ys : List ParseTree) (qs : List Phrase), List.Forall₂ IsPhrase ys qs →
        (∀ q ∈ qs, q ∈ p.parts) →
        List.Forall₂ IsPhrase (ys.flatMap nodes) (qs.flatMap Phrase.preorder) := by
      intro ys qs hys hqs
      induction hys with
      | nil => exact .nil
      | cons hyq _ ih' =>
        obtain ⟨hq, hqs⟩ := List.forall_mem_cons.mp hqs
        exact List.rel_append (ih _ hq hyq) (ih' hqs)
    exact hbelow _ _ hparts fun q hq => hq

/-- The nodes of the statements of a document, in order. -/
def statementNodes (items : List ParseTree) : List ParseTree :=
  (items.filter (·.kind?.isSome)).flatMap nodes

theorem forall₂_statementNodes {items : List ParseTree} {body : List Value}
    (h : List.Forall₂ (Reads .any) items body) :
    List.Forall₂ IsPhrase (statementNodes items) (Phrase.statements body) :=
  List.rel_flatMap (forall₂_filter h) fun _ _ hp => forall₂_nodes hp

end Json.ParseTree

end ScriptFeatures
