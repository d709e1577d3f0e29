import Mathlib.Data.Set.Defs
import ScriptFeatures.Store.Disk

/-!
What the bytes of a store on disk stand for. A count that fits its eight bytes
reads back from them. A part of a key reads back from what was written for it,
whatever follows (`KeyCoding.Part.Reads`), and so does every feature whose texts
and numbers fit their widths.
-/

namespace ScriptFeatures

/-! ### Numbers -/

@[simp] theorem length_littleEndian (width n : Nat) : (littleEndian width n).length = width := by
  induction width generalizing n with
  | zero => rfl
  | succ width ih => rw [littleEndian, List.length_cons, ih]

theorem ofLittleEndian_littleEndian (width n : Nat) :
    ofLittleEndian (littleEndian width n) = n % Nat.pow 256 width := by
  induction width generalizing n with
  | zero => exact (Nat.mod_one n).symm
  | succ width ih =>
    have hbyte : (n % 256).toUInt8.toNat = n % 256 :=
      Nat.mod_eq_of_lt (Nat.mod_lt n (by decide))
    have hpow : Nat.pow 256 (width + 1) = 256 * Nat.pow 256 width := Nat.pow_succ'
    rw [littleEndian, ofLittleEndian, ih, hbyte, hpow, Nat.mod_mul]

theorem ofLittleEndian_of_lt {width n : Nat} (h : n < Nat.pow 256 width) :
    ofLittleEndian (littleEndian width n) = n := by
  rw [ofLittleEndian_littleEndian, Nat.mod_eq_of_lt h]

theorem littleEndian_mod (width n : Nat) :
    littleEndian width (n % Nat.pow 256 width) = littleEndian width n := by
  induction width generalizing n with
  | zero => rfl
  | succ width ih =>
    have hpow : Nat.pow 256 (width + 1) = 256 * Nat.pow 256 width := Nat.pow_succ'
    rw [littleEndian, littleEndian, hpow, Nat.mod_mul_right_mod, Nat.mod_mul_right_div_self, ih]

theorem countOf_countBytes (n : Nat) : countOf (countBytes n) = n % 0x10000000000000000 := by
  have hlength : (countBytes n).length = 8 := by
    rw [countBytes, List.length_reverse, length_littleEndian]
  rw [countOf, if_pos hlength, countBytes, List.reverse_reverse]
  exact ofLittleEndian_littleEndian 8 n

theorem countBytes_congr {m n : Nat} (h : m % 0x10000000000000000 = n % 0x10000000000000000) :
    countBytes m = countBytes n := by
  have hm := littleEndian_mod 8 m
  have hn := littleEndian_mod 8 n
  have hpow : Nat.pow 256 8 = 0x10000000000000000 := by decide
  rw [hpow] at hm hn
  rw [countBytes, countBytes, ← hm, ← hn, h]

/-- Counting on from an entry, also from one whose count has run over. -/
theorem countBytes_succ (n : Nat) :
    countBytes (countOf (countBytes n) + 1) = countBytes (n + 1) := by
  rw [countOf_countBytes]
  apply countBytes_congr
  exact Nat.mod_add_mod n 0x10000000000000000 1

/-! ### Keys -/

/-- Every feature of a set reads back from its key. -/
def KeyCoding.Faithful (k : KeyCoding) (fs : Set Feature) : Prop :=
  ∀ f ∈ fs, k.decode? (k.encode f) = some f

theorem KeyCoding.Faithful.encode_inj {k : KeyCoding} {fs : Set Feature} (h : k.Faithful fs)
    {f g : Feature} (hf : f ∈ fs) (hg : g ∈ fs) : k.encode f = k.encode g ↔ f = g := by
  constructor
  · intro heq
    have hread := h f hf
    rw [heq, h g hg, Option.some.injEq] at hread
    exact hread.symm
  · exact congrArg k.encode

/-- The texts and numbers of a feature fit the widths they are written in. -/
def FeatureValue.Fits : FeatureValue → Prop
  | .string s => s.utf8ByteSize < 0x10000000000000000
  | .integer n => -0x8000000000000000 ≤ n ∧ n < 0x8000000000000000
  | .double _ | .bool _ | .null => True

def Feature.Fits (f : Feature) : Prop :=
  f.context.utf8ByteSize < 0x10000000000000000 ∧ f.value.Fits

namespace KeyCoding

/-- A part reads back from what was written for it, and leaves what follows. -/
def Part.Reads {α : Type} (p : Part α) (written : Bytes) (a : α) : Prop :=
  ∀ rest, p.run (written ++ rest) = some (a, rest)

namespace Part.Reads

variable {α β : Type} {p : Part α} {written written' : Bytes} {a : α}

theorem pure (a : α) : Reads (Pure.pure a) [] a := fun _ => rfl

theorem bind {q : α → Part β} {b : β} (hp : p.Reads written a) (hq : (q a).Reads written' b) :
    Reads (p >>= q) (written ++ written') b := by
  intro rest
  rw [StateT.run_bind, List.append_assoc, hp]
  exact hq rest

theorem map (f : α → β) (hp : p.Reads written a) : Reads (f <$> p) written (f a) := by
  intro rest
  rw [StateT.run_map, hp]
  rfl

theorem lift {found : Option α} (h : found = some a) : Reads (StateT.lift found) [] a := by
  intro rest
  subst h
  rfl

end Part.Reads

theorem bytes_reads (written : Bytes) : (bytes written.length).Reads written written := by
  intro rest
  have hlength : written.length ≤ (written ++ rest).length := by
    rw [List.length_append]
    exact Nat.le_add_right _ _
  change bytes written.length (written ++ rest) = _
  rw [bytes, if_pos hlength, List.take_left, List.drop_left]

theorem number_reads {width n : Nat} (h : n < Nat.pow 256 width) :
    (number width).Reads (littleEndian width n) n := by
  have hbytes := (bytes_reads (littleEndian width n)).map ofLittleEndian
  rw [length_littleEndian, ofLittleEndian_of_lt h] at hbytes
  exact hbytes

theorem Part.Reads.bind_nil {α β : Type} {p : Part α} {q : α → Part β} {written : Bytes} {a : α}
    {b : β} (hp : p.Reads written a) (hq : (q a).Reads [] b) : (p >>= q).Reads written b := by
  rw [← List.append_nil written]
  exact hp.bind hq

theorem text_reads {s : String} (h : s.utf8ByteSize < 0x10000000000000000) :
    text.Reads (textBytes s) s := by
  have hcontent : (bytes s.utf8ByteSize).Reads s.toUTF8.data.toList s.toUTF8.data.toList :=
    bytes_reads _
  have hread : String.fromUTF8? ⟨s.toUTF8.data.toList.toArray⟩ = some s :=
    dif_pos s.isValidUTF8
  exact .bind (number_reads h) (.bind_nil hcontent (.lift hread))

theorem signed_emod {n : Int} (hlow : -0x8000000000000000 ≤ n) (hhigh : n < 0x8000000000000000) :
    signed (n % 0x10000000000000000).toNat = n := by
  unfold signed
  split <;> omega

theorem value_reads {v : FeatureValue} (h : v.Fits) : value.Reads v.bytes v := by
  have htype {n : Nat} (hn : n < 5) : (number 4).Reads (littleEndian 4 n) n :=
    number_reads (Nat.lt_trans hn (by decide))
  cases v with
  | string s => exact .bind (htype (by decide)) ((text_reads h).map _)
  | integer n =>
    obtain ⟨hlow, hhigh⟩ := h
    have hfits : (n % 0x10000000000000000).toNat < Nat.pow 256 8 := by
      have hpow : Nat.pow 256 8 = 0x10000000000000000 := by decide
      rw [hpow]
      omega
    have hnumber := (number_reads hfits).map fun n => FeatureValue.integer (signed n)
    rw [signed_emod hlow hhigh] at hnumber
    exact .bind (htype (by decide)) hnumber
  | double x =>
    have hfits : x.bits.toNat < Nat.pow 256 8 := x.bits.toNat_lt
    have hnumber := (number_reads hfits).map fun n => FeatureValue.double ⟨n.toUInt64⟩
    have hbits : x.bits.toNat.toUInt64 = x.bits := UInt64.ofNat_toNat
    rw [hbits] at hnumber
    exact .bind (htype (by decide)) hnumber
  | bool b =>
    have hfits : b.toNat < Nat.pow 256 1 := Nat.lt_trans (Bool.toNat_lt b) (by decide)
    have htruth : truth b.toNat = some b := by cases b <;> rfl
    refine .bind (htype (by decide)) (.bind_nil (number_reads hfits) ?_)
    exact .bind_nil (.lift htruth) (.pure _)
  | null => exact .bind_nil (htype (by decide)) (.pure _)

theorem feature_reads {f : Feature} (h : f.Fits) : feature.Reads f.bytes f :=
  .bind (text_reads h.1) (.bind_nil (value_reads h.2) (.pure _))

theorem binary_faithful : binary.Faithful {f | f.Fits} := by
  intro f hf
  have hread := feature_reads hf []
  rw [List.append_nil] at hread
  rw [binary]
  simp only [hread, Option.map_some]

end KeyCoding

end ScriptFeatures
