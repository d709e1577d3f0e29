import ScriptFeatures.Descriptor
import ScriptFeatures.Proofs.Json.Kept

/-!
Descriptors that are read back. A document lists the members of a descriptor in
any order (`Descriptor.Entries`); others may stand between them, and a list of
leading comments without elements may be missing. Reading any text of these
entries gives the descriptor (`Descriptor.read_written`).
-/

namespace ScriptFeatures.Descriptor

open Json Json.Reader

/-! ### Members -/

def requiredPlaces : List (String × Shape) :=
  [("type", .string), ("body", .list .any), ("sourceType", .string),
    ("range", .tuple [position, position]), ("tokens", .list .any), ("comments", .list .any)]

def optionalPlaces : List (String × Shape) := [("leadingComments", .list .any)]

theorem shape_eq : shape = .record "RawAstDescriptor" requiredPlaces optionalPlaces := rfl

def boundsValue (range : ℕ × ℕ) : Value :=
  .array [.number (.integer range.1), .number (.integer range.2)]

def members (d : Descriptor) : Members :=
  [("type", .string d.kind), ("body", .array d.body), ("sourceType", .string d.sourceType),
    ("range", boundsValue d.range), ("tokens", .array d.tokens), ("comments", .array d.comments),
    ("leadingComments", .array d.leadingComments)]

theorem ofValue_members (d : Descriptor) : ofValue (.object d.members) = d := by
  rfl

/-- The descriptors that a text keeps as they are. -/
structure Writable (d : Descriptor) : Prop where
  bounds : d.range.1 < 0x10000000000000000 ∧ d.range.2 < 0x10000000000000000
  values : ∀ v ∈ d.body ++ d.tokens ++ d.comments ++ d.leadingComments, v.Writable

/-- The members of a descriptor in some order, with entries of other names
anywhere between them. -/
structure Entries (d : Descriptor) (entries : List Entry) : Prop where
  members : (entries.filterMap Entry.member?).Perm d.members ∨
    d.leadingComments = [] ∧ (entries.filterMap Entry.member?).Perm d.members.dropLast
  others : ∀ name tokens, .other name tokens ∈ entries →
    name ∉ d.members.map Prod.fst ∧ WellFormed tokens

/-! ### Reading -/

theorem passes_bounds {stack : List Frame} {a : Await} (h : Takes (.tuple [position, position]) a)
    {range : ℕ × ℕ} (hfirst : range.1 < 0x10000000000000000)
    (hsecond : range.2 < 0x10000000000000000) :
    Passes none (boundsValue range).tokens ⟨stack, .await a⟩
      (complete stack (boundsValue range)) := by
  obtain ⟨m, n⟩ := range
  have haccept (k : ℕ) : position.accept (.number (.integer k)) = .ok (.number (.integer k)) := by
    simp [position, Shape.accept]
  have hopen : Passes none [['[']] ⟨stack, .await a⟩
      ⟨.tuple 2 [position, position] [] :: stack, .await (.element position true)⟩ := by
    refine .mark (.await _ _) ?_
    rw [h.step_eq rfl (by decide)]
    rfl
  have hone : Passes none [integerText m]
      ⟨.tuple 2 [position, position] [] :: stack, .await (.element position true)⟩
      ⟨.tuple 2 [position] [.number (.integer m)] :: stack, .await (.separator position)⟩ :=
    passes_integerText (.element true) rfl (by omega) (by exact_mod_cast hfirst) (haccept m)
  have hcomma : Passes none [[',']]
      ⟨.tuple 2 [position] [.number (.integer m)] :: stack, .await (.separator position)⟩
      ⟨.tuple 2 [position] [.number (.integer m)] :: stack, .await (.element position false)⟩ :=
    .mark (.await _ _) rfl
  have htwo : Passes none [integerText n]
      ⟨.tuple 2 [position] [.number (.integer m)] :: stack, .await (.element position false)⟩
      ⟨.tuple 2 [] [.number (.integer n), .number (.integer m)] :: stack, .await .rowEnd⟩ :=
    passes_integerText (.element false) rfl (by omega) (by exact_mod_cast hsecond) (haccept n)
  have hclose : Passes none [[']']]
      ⟨.tuple 2 [] [.number (.integer n), .number (.integer m)] :: stack, .await .rowEnd⟩
      (complete stack (boundsValue (m, n))) := .mark (between_complete _ _) rfl
  exact hopen.trans (hone.trans (hcomma.trans (htwo.trans hclose)))

theorem passes_values {stack : List Frame} {a : Await} (h : Takes (.list .any) a)
    {items : List Value} (hitems : ∀ v ∈ items, v.Writable) :
    Passes none (Value.array items).tokens ⟨stack, .await a⟩ (complete stack (.array items)) := by
  rw [Value.tokens, itemsTokens_eq_map]
  exact passes_list h rfl fun v hv frame a => passes_value (hitems v hv) (frame :: stack) a

theorem Writable.fits {d : Descriptor} (hd : d.Writable) {stack : List Frame} {name : String}
    {v : Value} (h : (name, v) ∈ d.members) :
    (Entry.member name v).Fits none stack (requiredPlaces ++ optionalPlaces) := by
  obtain ⟨hbounds, hvalues⟩ := hd
  simp only [List.forall_mem_append] at hvalues
  obtain ⟨⟨⟨hbody, htokens⟩, hcomments⟩, hleading⟩ := hvalues
  simp only [members, List.mem_cons, Prod.mk.injEq, List.not_mem_nil, or_false] at h
  rcases h with ⟨rfl, rfl⟩ | ⟨rfl, rfl⟩ | ⟨rfl, rfl⟩ | ⟨rfl, rfl⟩ | ⟨rfl, rfl⟩ | ⟨rfl, rfl⟩ |
    ⟨rfl, rfl⟩
  · exact ⟨.string, rfl, fun frame a ha => passes_stringText ha rfl rfl⟩
  · exact ⟨.list .any, rfl, fun frame a ha => passes_values ha hbody⟩
  · exact ⟨.string, rfl, fun frame a ha => passes_stringText ha rfl rfl⟩
  · exact ⟨.tuple [position, position], rfl, fun frame a ha =>
      passes_bounds ha hbounds.1 hbounds.2⟩
  · exact ⟨.list .any, rfl, fun frame a ha => passes_values ha htokens⟩
  · exact ⟨.list .any, rfl, fun frame a ha => passes_values ha hcomments⟩
  · exact ⟨.list .any, rfl, fun frame a ha => passes_values ha hleading⟩

theorem nodup_members (d : Descriptor) : (d.members.map Prod.fst).Nodup := by
  have hnames : d.members.map Prod.fst = ["type", "body", "sourceType", "range", "tokens",
      "comments", "leadingComments"] := rfl
  rw [hnames]
  decide

namespace Entries

variable {d : Descriptor} {entries : List Entry}

theorem nodup (h : d.Entries entries) :
    ((entries.filterMap Entry.member?).map Prod.fst).Nodup := by
  rcases h.members with hperm | ⟨-, hperm⟩
  · exact (hperm.map Prod.fst).nodup_iff.mpr d.nodup_members
  · refine (hperm.map Prod.fst).nodup_iff.mpr (d.nodup_members.sublist ?_)
    exact (List.dropLast_sublist _).map _

theorem subset (h : d.Entries entries) : entries.filterMap Entry.member? ⊆ d.members := by
  rcases h.members with hperm | ⟨-, hperm⟩
  · exact hperm.subset
  · exact fun m hm => List.dropLast_subset _ (hperm.subset hm)

theorem nodup_reverse (h : d.Entries entries) :
    ((entries.filterMap Entry.member?).reverse.map Prod.fst).Nodup := by
  rw [List.map_reverse]
  exact List.nodup_reverse.mpr h.nodup

theorem get?_eq (h : d.Entries entries) {name : String} {v : Value}
    (hmem : (name, v) ∈ d.members.dropLast) :
    Members.get? (entries.filterMap Entry.member?).reverse name = some v := by
  rw [Members.get?_eq_some_iff h.nodup_reverse, List.mem_reverse]
  rcases h.members with hperm | ⟨-, hperm⟩
  · exact hperm.symm.subset (List.dropLast_subset _ hmem)
  · exact hperm.symm.subset hmem

theorem get?_leadingComments (h : d.Entries entries) :
    (Members.get? (entries.filterMap Entry.member?).reverse "leadingComments").getD (.array []) =
      .array d.leadingComments := by
  rcases h.members with hperm | ⟨hempty, hperm⟩
  · have hmem : ("leadingComments", .array d.leadingComments) ∈
        (entries.filterMap Entry.member?).reverse :=
      List.mem_reverse.mpr (hperm.symm.subset (by simp [Descriptor.members]))
    rw [(Members.get?_eq_some_iff h.nodup_reverse).mpr hmem]
    rfl
  · have hnone :
        Members.get? (entries.filterMap Entry.member?).reverse "leadingComments" = none := by
      rw [Members.get?_eq_none_iff, List.map_reverse, List.mem_reverse]
      intro hname
      have hkept := (hperm.map Prod.fst).subset hname
      have hnames : d.members.dropLast.map Prod.fst =
          ["type", "body", "sourceType", "range", "tokens", "comments"] := rfl
      rw [hnames] at hkept
      revert hkept
      decide
    rw [hnone, hempty]
    rfl

theorem assemble_eq (h : d.Entries entries) :
    assemble requiredPlaces optionalPlaces (entries.filterMap Entry.member?).reverse =
      .ok (.object d.members) := by
  have hget : ∀ m ∈ d.members.dropLast,
      Members.get? (entries.filterMap Entry.member?).reverse m.1 = some m.2 :=
    fun m hm => h.get?_eq hm
  have hmembers : d.members.dropLast = [("type", .string d.kind), ("body", .array d.body),
      ("sourceType", .string d.sourceType), ("range", boundsValue d.range),
      ("tokens", .array d.tokens), ("comments", .array d.comments)] := rfl
  rw [hmembers] at hget
  simp only [List.forall_mem_cons, List.not_mem_nil, false_implies, implies_true, and_true] at hget
  obtain ⟨htype, hbody, hsourceType, hrange, htokens, hcomments⟩ := hget
  rw [assemble_eq_ok]
  · simp only [requiredPlaces, optionalPlaces, Descriptor.members, List.cons_append,
      List.nil_append, List.map_cons, List.map_nil, htype, hbody, hsourceType, hrange, htokens,
      hcomments, h.get?_leadingComments, Option.getD_some]
  · simp [requiredPlaces, htype, hbody, hsourceType, hrange, htokens, hcomments]

theorem fits (h : d.Entries entries) (hd : d.Writable) {stack : List Frame} :
    ∀ e ∈ entries, e.Fits none stack (requiredPlaces ++ optionalPlaces) := by
  intro e he
  cases e with
  | member name v =>
    exact hd.fits (h.subset (List.mem_filterMap.mpr ⟨.member name v, he, rfl⟩))
  | other name tokens =>
    obtain ⟨hname, htokens⟩ := h.others name tokens he
    refine ⟨?_, htokens⟩
    rw [List.lookup_eq_none_iff]
    intro place hplace
    have hplaces : (requiredPlaces ++ optionalPlaces).map Prod.fst = d.members.map Prod.fst := rfl
    rw [← hplaces] at hname
    exact bne_iff_ne.mpr fun heq => hname (heq ▸ List.mem_map_of_mem hplace)

end Entries

/-- A descriptor is read back from any text of its members: in any order, with
others between them, with any spaces between the tokens, and however deep the
values nest. -/
theorem read_written {d : Descriptor} (hd : d.Writable) {entries : List Entry}
    (h : d.Entries entries) {blank text : List Char} (hblank : ∀ c ∈ blank, c ∈ spaces)
    (htext : Spaced (enclosed '\x7b' '\x7d' (entries.map Entry.tokens)) text) :
    read (String.ofList (blank ++ text)) = .ok d := by
  have hpasses : Passes none (enclosed '\x7b' '\x7d' (entries.map Entry.tokens)) (.start shape)
      ⟨[], .done (.object d.members)⟩ := by
    rw [shape_eq]
    exact passes_record .value rfl (h.fits hd) h.nodup h.assemble_eq
  have hbehind : outcome none ⟨[], .done (.object d.members)⟩ [] = .ok (.object d.members) := rfl
  have hread := hpasses text htext [] _ hbehind
  rw [List.append_nil] at hread
  have hstart : Between (.start shape) := .await _ _
  rw [read, read_eq_outcome, String.toList_ofList, hstart.outcome_blank hblank, hread]
  exact congrArg Except.ok (ofValue_members d)

/-- A descriptor with values of several kinds. -/
def mixedDescriptor : Descriptor :=
  { kind := "Program"
    body := [.object [("type", .string "Literal"), ("value", .number (.integer (-1)))],
      .array [.null, .bool false]]
    sourceType := "\n"
    range := (0, 18446744073709551615)
    tokens := []
    comments := []
    leadingComments := [] }

/-- Its members from the last to the first, with a number and a string between
them that could be no values of it. -/
def mixedEntries : List Entry :=
  [.other "loc" [['-', '0', '.', '5', 'E', '+', '9']],
    .member "comments" (.array []), .member "tokens" (.array []),
    .member "range" (boundsValue mixedDescriptor.range),
    .other "raw" [['"', '\\', 'u', 'D', '8', '3', 'd', '"']],
    .member "sourceType" (.string "\n"), .member "body" (.array mixedDescriptor.body),
    .member "type" (.string "Program")]

def mixedText : List Char :=
  (enclosed '\x7b' '\x7d' (mixedEntries.map Entry.tokens)).flatMap (· ++ [' '])

theorem read_written_mixed : read (String.ofList (['\n'] ++ mixedText)) = .ok mixedDescriptor := by
  have hwritable : mixedDescriptor.Writable := by
    refine ⟨by decide, ?_⟩
    intro v hv
    simp only [mixedDescriptor, List.append_nil, List.mem_cons, List.not_mem_nil, or_false] at hv
    rcases hv with rfl | rfl
    · refine .object (by decide) ?_
      simp only [List.forall_mem_cons, List.not_mem_nil, false_implies, implies_true, and_true]
      exact ⟨.string _, .integer (by decide) (by decide)⟩
    · refine .array ?_
      simp only [List.forall_mem_cons, List.not_mem_nil, false_implies, implies_true, and_true]
      exact ⟨.null, .bool false⟩
  have hentries : mixedDescriptor.Entries mixedEntries := by
    refine ⟨.inr ⟨rfl, List.reverse_perm mixedDescriptor.members.dropLast⟩, ?_⟩
    intro name tokens hmem
    simp only [mixedEntries, List.mem_cons, List.not_mem_nil, or_false, reduceCtorEq, false_or,
      Entry.other.injEq] at hmem
    rcases hmem with ⟨rfl, rfl⟩ | ⟨rfl, rfl⟩
    · have hfraction : IsFraction ['.', '5'] :=
        .inr ⟨['5'], rfl, by simp, by simp [Decimal.Digits]⟩
      have hexponent : IsExponent ['E', '+', '9'] :=
        .inr ⟨'E', ['+'], ['9'], rfl, .inr rfl, .inr (.inl rfl), by simp, by simp [Decimal.Digits]⟩
      exact ⟨by decide, .number (.mk (.inr rfl) (.inl rfl) hfraction hexponent)⟩
    · refine ⟨by decide, .string (@IsString.mk [['\\', 'u', 'D', '8', '3', 'd']] ?_)⟩
      intro unit hunit
      rw [List.mem_singleton.mp hunit]
      exact .code (by decide) (by decide) (by decide) (by decide)
  have hbreak : ∀ c ∈ ['\n'], c ∈ spaces := by simp [spaces]
  have hspace : ∀ c ∈ [' '], c ∈ spaces := by simp [spaces]
  exact read_written hwritable hentries hbreak (spaced_flatMap hspace _)

end ScriptFeatures.Descriptor
