import ScriptFeatures.Proofs.Json.Ignored

/-!
Records that are read back. The members of a record may stand in any order,
with any others between them whose values do not matter, and are put in their
order when the record is complete (`Reader.passes_record`).
-/

namespace ScriptFeatures.Json

/-! ### Members by name -/

namespace Members

variable {ms ms' : Members} {name : String}

theorem get?_eq_some_iff (h : (ms.map Prod.fst).Nodup) {v : Value} :
    ms.get? name = some v ↔ (name, v) ∈ ms := by
  induction ms with
  | nil => simp [get?]
  | cons m ms ih =>
    obtain ⟨k, w⟩ := m
    obtain ⟨hfresh, hms⟩ := List.nodup_cons.mp h
    rw [get?, List.lookup_cons]
    by_cases hname : name = k
    · subst hname
      have hnot : (name, v) ∉ ms := fun hmem =>
        hfresh (List.mem_map.mpr ⟨_, hmem, rfl⟩)
      simp [hnot, eq_comm]
    · have hne : (name == k) = false := beq_eq_false_iff_ne.mpr hname
      rw [hne, List.mem_cons]
      have hpair : (name, v) ≠ (k, w) := fun heq => hname (Prod.mk.inj heq).1
      rw [or_iff_right hpair]
      exact ih hms

theorem get?_eq_none_iff : ms.get? name = none ↔ name ∉ ms.map Prod.fst := by
  rw [get?, List.lookup_eq_none_iff]
  simp only [List.mem_map, not_exists, not_and, bne_iff_ne]
  exact ⟨fun h m hm heq => h m hm heq.symm, fun h m hm heq => h m hm heq.symm⟩

end Members

/-! ### Entries -/

/-- What stands between the brackets of a record: a member, or an entry of
another name. -/
inductive Entry
  | member (name : String) (v : Value)
  | other (name : String) (tokens : List Token)

namespace Entry

def tokens : Entry → List Token
  | .member name v => memberTokens (stringText name) v.tokens
  | .other name tokens => memberTokens (stringText name) tokens

def member? : Entry → Option (String × Value)
  | .member name v => some (name, v)
  | .other _ _ => none

/-- In a record that stands in some containers, a member is read back where its
shape is asked for, and a well-formed value stands behind another name. -/
def Fits (limit : Option Nat) (stack : List Reader.Frame) (places : List (String × Shape)) :
    Entry → Prop
  | .member name v => ∃ shape, places.lookup name = some shape ∧ ∀ frame a,
      Reader.Takes shape a → Reader.Passes limit v.tokens ⟨frame :: stack, .await a⟩
        (Reader.complete (frame :: stack) v)
  | .other name tokens => places.lookup name = none ∧ WellFormed tokens

end Entry

namespace Reader

variable {limit : Option Nat} {stack : List Frame} {a : Await}
  {required optional : List (String × Shape)}

theorem assemble_eq_ok {read : Members}
    (h : ∀ place ∈ required, (read.get? place.1).isSome = true) :
    assemble required optional read = .ok (.object ((required ++ optional).map fun place =>
      (place.1, (read.get? place.1).getD (.array [])))) := by
  have hnone : required.find? (fun place => (read.get? place.1).isNone) = none := by
    rw [List.find?_eq_none]
    intro place hplace
    simp [Option.isSome_iff_ne_none.mp (h place hplace)]
  rw [assemble, hnone]

def recordFrame (required optional : List (String × Shape)) (xs : List Entry) : Frame :=
  .record required optional (xs.filterMap Entry.member?).reverse none

theorem passes_entry {xs : List Entry} {e : Entry}
    (hfits : e.Fits limit stack (required ++ optional))
    (hnames : (((xs ++ [e]).filterMap Entry.member?).map Prod.fst).Nodup) (first : Bool) :
    Passes limit e.tokens
      ⟨recordFrame required optional xs :: stack, .await (.name first false)⟩
      ⟨recordFrame required optional (xs ++ [e]) :: stack, .await (.memberEnd false)⟩ := by
  rw [recordFrame, recordFrame, List.filterMap_append, List.reverse_append]
  cases e with
  | member name v =>
    obtain ⟨shape, hshape, hvalue⟩ := hfits
    -- a member of the name has not been read
    have hfresh : Members.get? (xs.filterMap Entry.member?).reverse name = none := by
      rw [Members.get?_eq_none_iff, List.map_reverse, List.mem_reverse]
      rw [List.filterMap_append, List.map_append] at hnames
      intro hname
      exact (List.nodup_append.mp hnames).2.2 name hname name List.mem_cons_self rfl
    have hnamed : named (.record required optional (xs.filterMap Entry.member?).reverse none ::
        stack) name =
        .ok ⟨.record required optional (xs.filterMap Entry.member?).reverse (some name) :: stack,
          .await (.colon shape)⟩ := by
      simp only [named, hshape, hfresh]
      rfl
    exact passes_member (passes_writtenName hnamed (.await _ _)) (hvalue _ _ .value)
  | other name tokens =>
    obtain ⟨hshape, htokens⟩ := hfits
    have hnamed : named (.record required optional (xs.filterMap Entry.member?).reverse none ::
        stack) name =
        .ok ⟨.record required optional (xs.filterMap Entry.member?).reverse none :: stack,
          .await (.colon .ignored)⟩ := by
      simp only [named, hshape]
    exact passes_member (passes_writtenName hnamed (.await _ _)) (passes_ignored htokens _ _ .value)

/-- A record in the form of an object. -/
theorem passes_record {name : String} (h : Takes (.record name required optional) a)
    (hroom : isFull limit stack = false) {entries : List Entry}
    (hfits : ∀ e ∈ entries, e.Fits limit stack (required ++ optional))
    (hnames : ((entries.filterMap Entry.member?).map Prod.fst).Nodup) {v : Value}
    (hassemble : assemble required optional (entries.filterMap Entry.member?).reverse = .ok v) :
    Passes limit (enclosed '\x7b' '\x7d' (entries.map Entry.tokens)) ⟨stack, .await a⟩
      (complete stack v) := by
  have hopen : openObject limit stack (.record name required optional) =
      .ok ⟨recordFrame required optional [] :: stack, .await (.name true false)⟩ := by
    rw [openObject, enter, hroom]
    rfl
  refine passes_braces (recordFrame required optional) h hopen ?_ (between_complete _ _) ?_
  · intro xs e ys hentries
    refine passes_entry (hfits e (by simp [hentries])) ?_ xs.isEmpty
    rw [hentries, ← List.singleton_append, ← List.append_assoc, List.filterMap_append,
      List.map_append] at hnames
    exact (List.nodup_append.mp hnames).1
  · rw [close, recordFrame, Frame.close, hassemble]
    rfl

end Reader

end ScriptFeatures.Json
