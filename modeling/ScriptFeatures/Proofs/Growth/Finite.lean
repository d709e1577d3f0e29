import ScriptFeatures.Proofs.Decimal.Integral
import ScriptFeatures.Proofs.Growth.Planting
import ScriptFeatures.Proofs.Tree.Consistent

/-!
The numbers of a document on their way into a tree. A number of JSON is an
integer of 64 bits or a finite double (`Number.InRange`), so as a double it is
finite. An attribute keeps a number as a double only if it is no integer of 64
bits with a sign, and the doubles among the attributes of a tree that was built
from a document are finite (`Descriptor.finite_of_toTree`).
-/

namespace ScriptFeatures

open Json

/-- What a number of JSON can be: an integer of 64 bits, with or without a sign,
or a finite double. -/
def Json.Number.InRange : Number → Prop
  | .integer n => -0x8000000000000000 ≤ n ∧ n < 0x10000000000000000
  | .double x => x.isFinite = true

theorem Json.Number.InRange.isFinite {n : Number} (h : n.InRange) :
    n.toBinary64.isFinite = true := by
  cases n with
  | double x => exact h
  | integer n =>
    obtain ⟨hlow, hhigh⟩ := h
    have habs : n.natAbs < 0x10000000000000000 := by omega
    have hfinite := Decimal.Binary64.isFinite_ofNat habs
    rw [Number.toBinary64]
    split
    · rw [Decimal.Binary64.isFinite, Decimal.Binary64.exponentField_neg]
      exact hfinite
    · exact hfinite

/-- Every number in a value is finite when it is read as a double. -/
inductive Json.Value.Finite : Value → Prop
  | null : Finite .null
  | bool (b : Bool) : Finite (.bool b)
  | string (s : String) : Finite (.string s)
  | number {n : Number} (h : n.toBinary64.isFinite = true) : Finite (.number n)
  | array {items : List Value} (h : ∀ v ∈ items, Finite v) : Finite (.array items)
  | object {members : Members} (h : ∀ m ∈ members, Finite m.2) : Finite (.object members)

theorem Json.Value.Finite.items {items : List Value} (h : (Value.array items).Finite) :
    ∀ v ∈ items, v.Finite := by
  cases h
  assumption

theorem Json.Value.Finite.members {ms : Members} (h : (Value.object ms).Finite) :
    ∀ m ∈ ms, m.2.Finite := by
  cases h
  assumption

def Attribute.Finite : Attribute → Prop
  | .double x => x.isFinite = true
  | _ => True

theorem Attribute.finite_ofScalar {v : Value} (h : v.Finite) : (ofScalar v).Finite := by
  cases h with
  | number hn =>
    rw [ofScalar]
    split
    · trivial
    · exact hn
  | null | bool _ | string _ | array _ | object _ => trivial

theorem Growth.finite_of_boundsAttribute? {first last : Option Value} {a : Attribute}
    (ha : boundsAttribute? first last = some a) : a.Finite := by
  rw [boundsAttribute?] at ha
  split at ha
  · cases ha
    trivial
  · contradiction

theorem Growth.finite_of_memberAttribute? {name : String} {v : Value} {a : Attribute}
    (h : v.Finite) (ha : memberAttribute? name v = some a) : a.Finite := by
  have hscalar := Attribute.finite_ofScalar h
  simp only [memberAttribute?] at ha
  split at ha
  · contradiction
  split at ha
  · split at ha
    · exact finite_of_boundsAttribute? ha
    · exact finite_of_boundsAttribute? ha
    · contradiction
  split at ha
  · split at ha <;> cases ha
    · trivial
    · exact hscalar
  · split at ha <;> cases ha
    · trivial
    · exact hscalar

namespace Tree

def Finite (t : Tree) : Prop :=
  ∀ id n, t.get? id = some n → ∀ name a, n.attributes.get? name = some a → a.Finite

theorem finite_ofRoot (kind : String) : (ofRoot kind).Finite := by
  intro id n hn name a ha
  rw [get?_ofRoot] at hn
  split at hn
  · cases hn
    contradiction
  · contradiction

theorem Finite.addChild {t : Tree} (h : t.Finite) (parent : NodeId) (kind tag : String)
    (fromList : Bool) : (t.addChild parent kind tag fromList).Finite := by
  intro id n hn name a ha
  rw [get?_addChild] at hn
  split at hn
  · cases hn
    contradiction
  · obtain ⟨old, hold, rfl⟩ := Option.map_eq_some_iff.mp hn
    refine h id old hold name a ?_
    split at ha <;> exact ha

theorem Finite.setAttribute {t : Tree} (h : t.Finite) (id : NodeId) (name : String)
    {a : Attribute} (ha : a.Finite) : (t.setAttribute id name a).Finite := by
  intro i n hn k b hb
  rw [get?_setAttribute] at hn
  obtain ⟨old, hold, rfl⟩ := Option.map_eq_some_iff.mp hn
  split at hb
  · rw [Attributes.get?_insert] at hb
    split at hb
    · cases hb
      exact ha
    · exact h i old hold k b hb
  · exact h i old hold k b hb

end Tree

namespace Growth

theorem finite_keepAttribute {t : Tree} (ht : t.Finite) (node : NodeId) (name : String) {v : Value}
    (hv : v.Finite) : (keepAttribute t node name v).Finite := by
  rw [keepAttribute]
  split
  · next ha => exact ht.setAttribute node name (finite_of_memberAttribute? hv ha)
  · exact ht

mutual

theorem finite_plantMembers {t : Tree} (ht : t.Finite) (node : NodeId) {ms : Members}
    (hms : ∀ m ∈ ms, m.2.Finite) : (plantMembers t node ms).Finite := by
  cases ms with
  | nil => exact ht
  | cons m ms =>
    have hv := hms m List.mem_cons_self
    have hkept := finite_keepAttribute ht node m.1 hv
    rw [plantMembers]
    refine finite_plantMembers ?_ node fun m' hm' => hms m' (List.mem_cons_of_mem m hm')
    split
    · exact hkept
    · exact finite_plantValue hkept node m.1 false hv

theorem finite_plantValue {t : Tree} (ht : t.Finite) (node : NodeId) (name : String)
    (fromList : Bool) {v : Value} (hv : v.Finite) :
    (plantValue t node name fromList v).Finite := by
  cases v with
  | object ms =>
    rw [plantValue]
    split
    · exact finite_plantMembers (ht.addChild node _ name fromList) _ hv.members
    · exact ht
  | array items =>
    rw [plantValue]
    split
    · exact ht
    · exact finite_plantItems ht node name hv.items
  | null | bool _ | number _ | string _ => exact ht

theorem finite_plantItems {t : Tree} (ht : t.Finite) (node : NodeId) (name : String)
    {items : List Value} (hitems : ∀ v ∈ items, v.Finite) :
    (plantItems t node name items).Finite := by
  cases items with
  | nil => exact ht
  | cons v items =>
    have hv := finite_plantValue ht node name true (hitems v List.mem_cons_self)
    exact finite_plantItems hv node name fun v' hv' => hitems v' (List.mem_cons_of_mem v hv')

end

end Growth

/-- The tree of a document has finite doubles as long as the document has. -/
theorem Descriptor.finite_of_toTree {d : Descriptor} (hd : ∀ v ∈ d.body, v.Finite) {t : Tree}
    (h : d.toTree = .ok t) : t.Finite := by
  rw [Descriptor.toTree, Tree.buildProgram_eq] at h
  cases h
  refine Growth.finite_plantMembers (Tree.finite_ofRoot d.kind) Tree.rootId fun m hm => ?_
  simp only [List.mem_cons, List.not_mem_nil, or_false] at hm
  rcases hm with rfl | rfl
  · exact .string d.kind
  · exact .array hd

end ScriptFeatures
