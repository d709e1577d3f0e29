import ScriptFeatures.Proofs.Json.Record

/-!
Values that are kept. What the reader gets from the tokens of a value, with any
spaces between them, is the value itself where it has the shape that is asked
for and there is room for the containers it opens (`Reader.passes_of_keeps`). So
a value without doubles whose integers fit 64 bits and whose objects repeat no
name (`Value.Writable`) is read back wherever a value of any shape may stand.
-/

namespace ScriptFeatures.Json

/-- The scalars that a text keeps as they are. -/
def Value.IsScalar : Value → Prop
  | .null | .bool _ | .string _ => True
  | .number (.integer n) => -0x8000000000000000 ≤ n ∧ n < 0x10000000000000000
  | .number (.double _) | .array _ | .object _ => False

/-- The shape that the elements of a list have, where a list may stand. -/
def Shape.element? : Shape → Option Shape
  | .any => some .any
  | .list element => some element
  | _ => none

/-- The values that a text keeps as they are where a shape is asked for. They
open no more containers one in another than there is room for. -/
inductive Shape.Keeps : Option Nat → Shape → Value → Prop
  | scalar {room : Option Nat} {shape : Shape} {v : Value} (hv : v.IsScalar)
      (haccept : shape.accept v = .ok v) : Keeps room shape v
  | list {room : Option Nat} {shape element : Shape} {items : List Value}
      (helement : shape.element? = some element) (hitems : ∀ v ∈ items, Keeps room element v) :
      Keeps (room.map (· + 1)) shape (.array items)
  | object {room : Option Nat} {members : Members} (hnames : (members.map Prod.fst).Nodup)
      (hmembers : ∀ m ∈ members, Keeps room .any m.2) :
      Keeps (room.map (· + 1)) .any (.object members)
  | record {room : Option Nat} {name : String} {required optional : List (String × Shape)}
      {members : Members} (hnames : (members.map Prod.fst).Nodup)
      (hplaces : members.map Prod.fst = (required ++ optional).map Prod.fst)
      (hmembers : ∀ m ∈ members, ∀ shape, (required ++ optional).lookup m.1 = some shape →
        Keeps room shape m.2) :
      Keeps (room.map (· + 1)) (.record name required optional) (.object members)

theorem Value.Writable.keeps {v : Value} (h : v.Writable) : Shape.Keeps none .any v := by
  induction h with
  | null => exact .scalar trivial rfl
  | bool b => exact .scalar trivial rfl
  | integer hlow hhigh => exact .scalar ⟨hlow, hhigh⟩ rfl
  | string s => exact .scalar trivial rfl
  | array _ ih => exact @Shape.Keeps.list none .any .any _ rfl ih
  | object hnames _ ih => exact @Shape.Keeps.object none _ hnames ih

theorem exists_lookup {places : List (String × Shape)} {name : String}
    (h : name ∈ places.map Prod.fst) : ∃ shape, places.lookup name = some shape := by
  rw [← Option.ne_none_iff_exists', Ne, List.lookup_eq_none_iff]
  intro hnone
  obtain ⟨place, hplace, rfl⟩ := List.mem_map.mp h
  simpa using hnone place hplace

theorem Shape.Keeps.any {room : Option Nat} {shape : Shape} {v : Value} (h : Keeps room shape v) :
    Keeps room .any v := by
  induction h with
  | scalar hv _ => exact .scalar hv rfl
  | list _ _ ih => exact .list rfl ih
  | object hnames _ ih => exact .object hnames ih
  | record hnames hplaces _ ih =>
    refine .object hnames fun m hm => ?_
    obtain ⟨shape, hshape⟩ := exists_lookup (hplaces ▸ List.mem_map_of_mem hm)
    exact ih m hm shape hshape

namespace Reader

variable {limit : Option Nat}

/-- So many containers may still be opened in some others. -/
def Room (limit : Option Nat) (stack : List Frame) (room : Option Nat) : Prop :=
  ∀ n ∈ limit, ∃ r ∈ room, stack.length + r ≤ n

section

variable {stack : List Frame} {room : Option Nat} {shape : Shape} {v : Value} {a : Await}

theorem Room.isFull_eq_false (h : Room limit stack (room.map (· + 1))) :
    isFull limit stack = false := by
  cases limit with
  | none => rfl
  | some n =>
    obtain ⟨r, hr, hle⟩ := h n rfl
    obtain ⟨r', -, rfl⟩ := Option.map_eq_some_iff.mp hr
    rw [isFull, decide_eq_false_iff_not]
    omega

theorem Room.inside (h : Room limit stack (room.map (· + 1))) (frame : Frame) :
    Room limit (frame :: stack) room := by
  intro n hn
  obtain ⟨r, hr, hle⟩ := h n hn
  obtain ⟨r', hr', rfl⟩ := Option.map_eq_some_iff.mp hr
  refine ⟨r', hr', ?_⟩
  rw [List.length_cons]
  omega

theorem isIgnored_of_accept (h : shape.accept v = .ok v) (hv : v ≠ .null) :
    shape.isIgnored = false := by
  cases shape with
  | ignored => exact absurd (Except.ok.inj h).symm hv
  | any | string | natural _ | list _ | tuple _ | record _ _ _ => rfl

theorem passes_scalar (h : Takes shape a) (hv : v.IsScalar) (haccept : shape.accept v = .ok v) :
    Passes limit v.tokens ⟨stack, .await a⟩ (complete stack v) := by
  cases v with
  | null => exact passes_null h haccept
  | bool b => exact passes_wordText h haccept
  | number n =>
    cases n with
    | integer n =>
      exact passes_integerText h (isIgnored_of_accept haccept (by simp)) hv.1 hv.2 haccept
    | double x => exact hv.elim
  | string s => exact passes_stringText h (isIgnored_of_accept haccept (by simp)) haccept
  | array items => exact hv.elim
  | object members => exact hv.elim

theorem openList_of_element? {element : Shape} (h : shape.element? = some element)
    (hroom : isFull limit stack = false) :
    openList limit stack shape =
      .ok ⟨.list element [] :: stack, .await (.element element true)⟩ := by
  cases shape with
  | any | list _ =>
    cases h
    rw [openList, enter, hroom]
    rfl
  | ignored | string | natural _ | tuple _ | record _ _ _ => contradiction

/-! ### Records -/

variable {name : String} {required optional : List (String × Shape)} {members : Members}

theorem assemble_members (hnames : (members.map Prod.fst).Nodup)
    (hplaces : members.map Prod.fst = (required ++ optional).map Prod.fst) :
    assemble required optional members.reverse = .ok (.object members) := by
  have hget (m : String × Value) (hm : m ∈ members) :
      Members.get? members.reverse m.1 = some m.2 := by
    rw [Members.get?_eq_some_iff, List.mem_reverse]
    · exact hm
    · rw [List.map_reverse]
      exact List.nodup_reverse.mpr hnames
  have hfill : (required ++ optional).map (fun place =>
      (place.1, (Members.get? members.reverse place.1).getD (.array []))) = members := by
    have hmap := congrArg (List.map fun name =>
      (name, (Members.get? members.reverse name).getD (.array []))) hplaces
    rw [List.map_map, List.map_map] at hmap
    refine hmap.symm.trans ?_
    conv_rhs => rw [← List.map_id members]
    refine List.map_congr_left fun m hm => ?_
    simp [hget m hm]
  rw [assemble_eq_ok, hfill]
  intro place hplace
  have hname : place.1 ∈ members.map Prod.fst := by
    rw [hplaces]
    exact List.mem_map_of_mem (List.mem_append_left optional hplace)
  obtain ⟨m, hm, hmname⟩ := List.mem_map.mp hname
  rw [← hmname, hget m hm]
  rfl

theorem passes_members (h : Takes (.record name required optional) a)
    (hroom : isFull limit stack = false) (hnames : (members.map Prod.fst).Nodup)
    (hplaces : members.map Prod.fst = (required ++ optional).map Prod.fst)
    (hmembers : ∀ m ∈ members, ∀ shape, (required ++ optional).lookup m.1 = some shape →
      ∀ frame a, Takes shape a →
        Passes limit m.2.tokens ⟨frame :: stack, .await a⟩ (complete (frame :: stack) m.2)) :
    Passes limit (Value.object members).tokens ⟨stack, .await a⟩
      (complete stack (.object members)) := by
  let entries := members.map fun m => Entry.member m.1 m.2
  have htokens : membersTokens members = entries.map Entry.tokens := by
    rw [membersTokens_eq_map, List.map_map]
    rfl
  have hmember? : entries.filterMap Entry.member? = members := by
    rw [List.filterMap_map]
    exact List.filterMap_some
  have hassemble : assemble required optional (entries.filterMap Entry.member?).reverse =
      .ok (.object members) := by
    rw [hmember?]
    exact assemble_members hnames hplaces
  rw [Value.tokens, htokens]
  refine passes_record h hroom ?_ (by rwa [hmember?]) hassemble
  intro e he
  obtain ⟨m, hm, rfl⟩ := List.mem_map.mp he
  obtain ⟨shape, hshape⟩ := exists_lookup (hplaces ▸ List.mem_map_of_mem hm)
  exact ⟨shape, hshape, hmembers m hm shape hshape⟩

end

/-- A value that is kept is read back from its tokens. -/
theorem passes_of_keeps {room : Option Nat} {shape : Shape} {v : Value}
    (h : Shape.Keeps room shape v) : ∀ stack a, Takes shape a → Room limit stack room →
      Passes limit v.tokens ⟨stack, .await a⟩ (complete stack v) := by
  induction h with
  | scalar hv haccept => exact fun stack a h _ => passes_scalar h hv haccept
  | list helement _ ih =>
    intro stack a h hroom
    rw [Value.tokens, itemsTokens_eq_map]
    refine passes_list h (openList_of_element? helement hroom.isFull_eq_false) ?_
    exact fun v hv frame a ha => ih v hv (frame :: stack) a ha (hroom.inside frame)
  | object hnames _ ih =>
    intro stack a h hroom
    have hopen : openObject limit stack .any =
        .ok ⟨.object [] "" :: stack, .await (.name true false)⟩ := by
      rw [openObject, enter, hroom.isFull_eq_false]
      rfl
    rw [Value.tokens, membersTokens_eq_map]
    refine passes_object h hopen hnames ?_
    exact fun m hm frame a ha => ih m hm (frame :: stack) a ha (hroom.inside frame)
  | record hnames hplaces _ ih =>
    intro stack a h hroom
    refine passes_members h hroom.isFull_eq_false hnames hplaces ?_
    exact fun m hm shape hshape frame a ha =>
      ih m hm shape hshape (frame :: stack) a ha (hroom.inside frame)

theorem passes_value {v : Value} (hv : v.Writable) (stack : List Frame) (a : Await)
    (h : Takes .any a) : Passes none v.tokens ⟨stack, .await a⟩ (complete stack v) :=
  passes_of_keeps hv.keeps stack a h (fun n hn => by contradiction)

end Reader

end ScriptFeatures.Json
