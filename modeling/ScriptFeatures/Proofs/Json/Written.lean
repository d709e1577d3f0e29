import Mathlib.Data.List.Nodup
import ScriptFeatures.Proofs.Json.Scanning

/-!
Values that are read back: scalars without doubles, and objects whose members
are read back and which repeat no name, from their tokens with any spaces
between them.
-/

namespace ScriptFeatures.Json

/-- The values that a text keeps as they are. -/
inductive Value.Writable : Value → Prop
  | null : Writable .null
  | bool (b : Bool) : Writable (.bool b)
  | integer {n : ℤ} (hlow : -0x8000000000000000 ≤ n) (hhigh : n < 0x10000000000000000) :
      Writable (.number (.integer n))
  | string (s : String) : Writable (.string s)
  | array {items : List Value} (hitems : ∀ v ∈ items, v.Writable) : Writable (.array items)
  | object {members : Members} (hnames : (members.map Prod.fst).Nodup)
      (hmembers : ∀ m ∈ members, m.2.Writable) : Writable (.object members)

theorem Members.put_of_notMem {ms : Members} {name : String} (h : name ∉ ms.map Prod.fst)
    (v : Value) : ms.put name v = (name, v) :: ms := by
  have hany : ms.any (·.1 == name) = false := by
    rw [List.any_eq_false]
    intro m hm heq
    exact h (List.mem_map.mpr ⟨m, hm, beq_iff_eq.mp heq⟩)
  rw [put, hany]
  rfl

namespace Reader

section

variable {limit : Option Nat} {stack stack' : List Frame} {a : Await} {shape : Shape}

/-! ### Scalars -/

theorem scan_stringText (s : String) :
    scanAll (StringScan.step false) .start (s.toList.flatMap escapeChar) =
      some ⟨.plain, s.toList.reverse⟩ := by
  rw [StringScan.start, scan_text, List.append_nil]

theorem text_reverse (s : String) : (⟨.plain, s.toList.reverse⟩ : StringScan).text = s := by
  rw [StringScan.text, List.reverse_reverse, String.ofList_toList]

theorem passes_stringText (h : Takes shape a) (hshape : shape.isIgnored = false) {s : String}
    {w : Value} (haccept : shape.accept (.string s) = .ok w) :
    Passes limit [stringText s] ⟨stack, .await a⟩ (complete stack w) := by
  refine passes_string h (s := ⟨.plain, s.toList.reverse⟩) ?_ rfl ?_
  · rw [hshape]
    exact scan_stringText s
  · rw [text_reverse]
    exact haccept

theorem passes_integerText (h : Takes shape a) (hshape : shape.isIgnored = false) {n : ℤ}
    (hlow : -0x8000000000000000 ≤ n) (hhigh : n < 0x10000000000000000) {w : Value}
    (haccept : shape.accept (.number (.integer n)) = .ok w) :
    Passes limit [integerText n] ⟨stack, .await a⟩ (complete stack w) := by
  obtain ⟨c, cs, scan, htext, hc, hscan, hclosed, hvalue⟩ := scan_integerText hlow hhigh
  rw [htext]
  refine passes_number h hc ?_ hclosed ?_ haccept
  · rw [hshape]
    exact hscan
  · rw [hshape]
    exact hvalue

theorem passes_null (h : Takes shape a) {w : Value} (haccept : shape.accept .null = .ok w) :
    Passes limit [['n', 'u', 'l', 'l']] ⟨stack, .await a⟩ (complete stack w) :=
  passes_word h rfl (by decide) rfl (by simp) haccept

theorem passes_wordText (h : Takes shape a) {b : Bool} {w : Value}
    (haccept : shape.accept (.bool b) = .ok w) :
    Passes limit [wordText b] ⟨stack, .await a⟩ (complete stack w) := by
  cases b with
  | true => exact passes_word h rfl (by decide) rfl (by simp) haccept
  | false => exact passes_word h rfl (by decide) rfl (by simp) haccept

/-! ### Members -/

theorem passes_writtenName {first : Bool} {name : String} {st : State}
    (hnamed : named stack name = .ok st) (hst : Between st) :
    Passes limit [stringText name] ⟨stack, .await (.name first false)⟩ st := by
  refine passes_name (s := ⟨.plain, name.toList.reverse⟩) (scan_stringText name) rfl ?_ hst
  rw [text_reverse]
  exact hnamed

theorem passes_member {first ignored : Bool} {name : Token} {value : List Token} {st : State}
    (hname : Passes limit [name] ⟨stack, .await (.name first ignored)⟩
      ⟨stack', .await (.colon shape)⟩)
    (hvalue : Passes limit value ⟨stack', .await (.value shape)⟩ st) :
    Passes limit (memberTokens name value) ⟨stack, .await (.name first ignored)⟩ st := by
  have hcolon : Passes limit [[':']] ⟨stack', .await (.colon shape)⟩
      ⟨stack', .await (.value shape)⟩ := .mark (.await _ _) rfl
  exact hname.trans (hcolon.trans hvalue)

def lastName (members : Members) : String := (members.getLast?.map Prod.fst).getD ""

theorem passes_object (h : Takes shape a)
    (hopen : openObject limit stack shape = .ok ⟨.object [] "" :: stack, .await (.name true false)⟩)
    {members : Members} (hnames : (members.map Prod.fst).Nodup)
    (hvalues : ∀ m ∈ members, ∀ frame a, Takes .any a →
      Passes limit m.2.tokens ⟨frame :: stack, .await a⟩ (complete (frame :: stack) m.2)) :
    Passes limit
      (enclosed '\x7b' '\x7d' (members.map fun m => memberTokens (stringText m.1) m.2.tokens))
      ⟨stack, .await a⟩ (complete stack (.object members)) := by
  refine passes_braces (fun xs => .object xs.reverse (lastName xs)) h hopen ?_
    (between_complete _ _) ?_
  · rintro xs ⟨name, v⟩ ys hmembers
    have hmem : (name, v) ∈ members := by simp [hmembers]
    -- the name is none of those before it
    have hfresh : name ∉ (xs.reverse).map Prod.fst := by
      rw [hmembers, List.map_append, List.map_cons] at hnames
      intro hname
      refine (List.nodup_cons.mp (List.nodup_middle.mp hnames)).1 (List.mem_append_left _ ?_)
      simpa using hname
    have hvalue := hvalues _ hmem (.object xs.reverse name) (.value .any) .value
    have hafter : complete (.object xs.reverse name :: stack) v =
        ⟨.object (xs ++ [(name, v)]).reverse (lastName (xs ++ [(name, v)])) :: stack,
          .await (.memberEnd false)⟩ := by
      simp [complete, lastName, Members.put_of_notMem hfresh]
    rw [hafter] at hvalue
    exact passes_member (passes_writtenName rfl (.await _ _)) hvalue
  · rw [close, Frame.close, List.reverse_reverse]
    rfl

end

end Reader

end ScriptFeatures.Json
